import Aoox.VolumeNames
import Aoox.Assoc
import Mathlib.Data.List.Nodup

/-! # Orphaned volumes and containers

Maintenance offers to remove what no row needs any more: volumes named like the ones
the runners create, and containers whose labels name a row that is gone.  Both lists
are computed from the rows alone, so a name or a label the rules forget would offer
live data for removal.

Here the rules stand beside what the runners do: for every row, the volumes its runner
mounts or creates (`Runner.volumes`) and the labels of the containers it starts
(`Runner.containers`).  Every such volume is expected (`mem_expectedVolumes`) and every
such container has either no owner or an owner that exists (`ownerOf_known`), hence
nothing of a live row is ever listed (`live_spared`).
-/
open List Option
namespace Aoox.Orphans

open JsString Volumes

/-! ## Rows -/

/-- A `uuid` column. -/
structure Id where
  text : JsString
  nonempty : text ≠ []
  deriving DecidableEq

structure Application where
  id : Id
  appName : Slug

structure ManagedDatabase where
  id : Id
  slug : Slug

structure ComposeApp where
  id : Id
  slug : Slug

inductive MountType where
  | volume | bind | file
  deriving DecidableEq, Repr

/-- A row of `mounts`; exactly one of the three owners is set. -/
structure Mount where
  id : Id
  (applicationId databaseId composeAppId : Option Id)
  service : Option JsString
  type : MountType
  name : Option JsString
  oneOwner : applicationId.isSome.toNat + databaseId.isSome.toNat + composeAppId.isSome.toNat = 1

structure PreviewDeployment where
  (id applicationId : Id)

structure DatabaseCompanion where
  databaseId : Id

structure VolumeBackup where
  (applicationId mountId : Id)

structure DatabaseBackup where
  databaseId : Id

/-- The rows that own volumes or containers.  Primary keys are unique, previews and
companions go with their owner, and only `volume` mounts of the application itself
are backed up. -/
structure Rows where
  applications : List Application
  managedDatabases : List ManagedDatabase
  composeApps : List ComposeApp
  mounts : List Mount
  previews : List PreviewDeployment
  companions : List DatabaseCompanion
  volumeBackups : List VolumeBackup
  databaseBackups : List DatabaseBackup
  applicationIds : (applications.map (·.id)).Nodup
  databaseIds : (managedDatabases.map (·.id)).Nodup
  composeIds : (composeApps.map (·.id)).Nodup
  previewOf : ∀ p ∈ previews, p.applicationId ∈ applications.map (·.id)
  companionOf : ∀ k ∈ companions, k.databaseId ∈ managedDatabases.map (·.id)
  backupOf : ∀ b ∈ volumeBackups, ∀ m ∈ mounts, m.id = b.mountId →
    m.applicationId = some b.applicationId ∧ m.type = .volume

/-! ## The volumes of a mount -/

/-- A JavaScript value that may be missing, where the empty string counts as missing. -/
def truthy (value : Option JsString) : Option JsString := value.filter (· ≠ [])

/-- Named volume for a `volume` mount, from the columns of its row. -/
def Mount.volumeNameFor (m : Mount) (o : Owner) : JsString :=
  prefixFor o ++ cu '_' ::
    (((truthy m.service).map fun s => underscored s ++ [cu '_']).getD [] ++
      underscored (m.name.getD []))

/-- The volumes made before a container is created: one for each `volume` mount, and
the files volume when a file has to be written. -/
def prepareMounts (o : Owner) (mounts : List Mount) : List JsString :=
  (mounts.filter (·.type = .volume)).map (·.volumeNameFor o) ++
    if mounts.filter (·.type = .file) = [] then [] else [filesVolumeFor o]

/-- The named volumes among the binds of a container.  Files are bound from inside
the files volume, `bind` mounts from the host. -/
def bindsFor (o : Owner) (mounts : List Mount) : List JsString :=
  mounts.filterMap fun m => if m.type = .volume then some (m.volumeNameFor o) else none

/-- The external volumes declared in the override of a stack. -/
def renderOverride (slug : Slug) (mounts : List Mount) : List JsString :=
  mounts.filterMap fun m =>
    if (truthy m.service).isNone then none
    else if m.type = .volume then some (m.volumeNameFor ⟨.compose, slug⟩) else none

/-! ## What the runners mount and start -/

def backupsVolume : JsString := js "aoox_backups"

inductive Runner where
  | application (a : Application)
  | applicationJob (a : Application)
  | preview (p : PreviewDeployment)
  | database (d : ManagedDatabase)
  | databaseJob (d : ManagedDatabase)
  | companion (k : DatabaseCompanion)
  | stack (s : ComposeApp)
  | stackJob (s : ComposeApp)
  | volumeBackup (b : VolumeBackup)
  | databaseBackup (b : DatabaseBackup)

def Runner.Live (rows : Rows) : Runner → Prop
  | .application a | .applicationJob a => a ∈ rows.applications
  | .preview p => p ∈ rows.previews
  | .database d | .databaseJob d => d ∈ rows.managedDatabases
  | .companion k => k ∈ rows.companions
  | .stack s | .stackJob s => s ∈ rows.composeApps
  | .volumeBackup b => b ∈ rows.volumeBackups
  | .databaseBackup b => b ∈ rows.databaseBackups

def Runner.volumes (rows : Rows) : Runner → List JsString
  | .application a | .applicationJob a =>
    let mounts := rows.mounts.filter (·.applicationId = some a.id)
    prepareMounts ⟨.app, a.appName⟩ mounts ++ bindsFor ⟨.app, a.appName⟩ mounts
  | .database d =>
    let mounts := rows.mounts.filter (·.databaseId = some d.id)
    volumeNameForDb d.slug :: prepareMounts ⟨.db, d.slug⟩ mounts ++ bindsFor ⟨.db, d.slug⟩ mounts
  | .stack s =>
    let mounts := rows.mounts.filter (·.composeAppId = some s.id)
    composeVolumeFor s.slug :: prepareMounts ⟨.compose, s.slug⟩ mounts ++
      renderOverride s.slug mounts
  | .volumeBackup b =>
    backupsVolume ::
      (rows.applications.filter (·.id = b.applicationId)).flatMap fun a =>
        (rows.mounts.filter (·.id = b.mountId)).map (·.volumeNameFor ⟨.app, a.appName⟩)
  | .databaseBackup b =>
    backupsVolume ::
      (rows.managedDatabases.filter (·.id = b.databaseId)).map (volumeNameForDb ·.slug)
  -- A preview never gets the mounts of its application, and the jobs of databases
  -- and stacks run without any.
  | .preview _ | .databaseJob _ | .companion _ | .stackJob _ => []

/-- Labels of a container, as the daemon reports them. -/
abbrev Labels := List (JsString × JsString)

def componentLabel : JsString := js "aoox.component"
def projectLabel : JsString := js "com.docker.compose.project"
def workdirLabel : JsString := js "com.docker.compose.project.working_dir"

/-- What is known of the labels of a container: the value of each, or that it is absent. -/
abbrev Stamp := List (JsString × Option JsString)

def Stamp.On (stamp : Stamp) (labels : Labels) : Prop :=
  ∀ e ∈ stamp, Assoc.get labels e.1 = e.2

instance (stamp : Stamp) (labels : Labels) : Decidable (stamp.On labels) :=
  inferInstanceAs (Decidable (∀ e ∈ stamp, Assoc.get labels e.1 = e.2))

def component (word : String) : JsString × Option JsString := (componentLabel, some (js word))

def ownedBy (key : String) (id : Id) : JsString × Option JsString := (js key, some id.text)

/-- A helper with the labels of the panel's own group and no component. -/
def mountHelper : Stamp := [(componentLabel, none), (projectLabel, some (js "aoox"))]

/-- Labels of the containers the runner of a row starts.  A service of a stack that the
override does not touch has only the labels the compose CLI gives it. -/
def Runner.containers : Runner → List Stamp
  | .application a => [[component "application", ownedBy "aoox.application" a.id], mountHelper]
  | .applicationJob a => [[component "job", ownedBy "aoox.application" a.id], mountHelper]
  | .preview p =>
    [[component "application", ownedBy "aoox.application" p.applicationId,
      ownedBy "aoox.preview" p.id]]
  | .database d => [[component "database", ownedBy "aoox.database" d.id], mountHelper]
  | .databaseJob d => [[component "job", ownedBy "aoox.database" d.id]]
  | .companion k => [[component "companion", ownedBy "aoox.companion" k.databaseId]]
  | .stack s =>
    [[component "compose", ownedBy "aoox.compose" s.id],
      [(componentLabel, none), (projectLabel, some (js "aoox-" ++ s.slug.text))],
      [component "build"], mountHelper]
  | .stackJob s => [[component "job", ownedBy "aoox.compose" s.id]]
  | .volumeBackup _ | .databaseBackup _ => [[component "backup"]]

/-! ## Orphaned volumes -/

/-- Singleton volumes that belong to no row. -/
def fixedVolumes : List JsString :=
  [js "aoox_buildkit", js "aoox_proxy_acme", js "aoox_proxy_certs", js "aoox_registry_data",
    js "aoox_registry_auth", backupsVolume, js "aoox_maintenance"]

def candidatePrefixes : List JsString := [js "aoox_app_", js "aoox_db_", js "aoox_compose_"]

def isCandidateVolume (name : JsString) : Bool :=
  fixedVolumes.contains name || candidatePrefixes.any (startsWith name ·)

def ownerFor (m : Mount) (apps : List (Id × Application)) (dbs : List (Id × ManagedDatabase))
    (composeApps : List (Id × ComposeApp)) : Option Owner :=
  match m.applicationId, m.databaseId, m.composeAppId with
  | some id, _, _ => (Assoc.get apps id).map fun a => ⟨.app, a.appName⟩
  | none, some id, _ => (Assoc.get dbs id).map fun d => ⟨.db, d.slug⟩
  | none, none, some id => (Assoc.get composeApps id).map fun c => ⟨.compose, c.slug⟩
  | none, none, none => none

/-- `new Map(rows.map((r) => [r.id, r]))` -/
def byId {α : Type} (id : α → Id) (rows : List α) : List (Id × α) :=
  Assoc.ofList (rows.map fun r => (id r, r))

def Rows.ownerFor (rows : Rows) (m : Mount) : Option Owner :=
  Orphans.ownerFor m (byId Application.id rows.applications)
    (byId ManagedDatabase.id rows.managedDatabases) (byId ComposeApp.id rows.composeApps)

/-- Every volume name that is still needed. -/
def expectedVolumes (rows : Rows) : List JsString :=
  fixedVolumes ++ rows.managedDatabases.map (volumeNameForDb ·.slug) ++
    rows.composeApps.map (composeVolumeFor ·.slug) ++
    rows.mounts.filterMap fun m => (rows.ownerFor m).bind fun owner =>
      match m.type with
      | .volume => some (m.volumeNameFor owner)
      | .file => some (filesVolumeFor owner)
      | .bind => none

def orphanedVolumes (actual expected : List JsString) : List JsString :=
  actual.filter fun name => isCandidateVolume name && !expected.contains name

theorem get_byId {α : Type} {id : α → Id} {rows : List α} (h : (rows.map id).Nodup) {r : α}
    (hr : r ∈ rows) : Assoc.get (byId id rows) (id r) = some r := by
  rw [byId, Assoc.get_ofList]
  have hkeys : ((rows.map fun r => (id r, r)).reverse.map Prod.fst).Nodup := by
    simpa [map_reverse, Function.comp_def] using nodup_reverse.mpr h
  have hmem : (id r, r) ∈ (rows.map fun r => (id r, r)).reverse := by
    simpa using hr
  exact Assoc.get_of_mem hkeys hmem

variable {rows : Rows}

variable {a : Application} {m : Mount}

/-- A mount of a row in the database has that row as its owner.  The other two
owner columns are empty, so the order in which they are looked at does not matter. -/
theorem ownerFor_application (ha : a ∈ rows.applications)
    (hm : m.applicationId = some a.id) : rows.ownerFor m = some ⟨.app, a.appName⟩ := by
  simp [Rows.ownerFor, ownerFor, hm, get_byId rows.applicationIds ha]

variable {d : ManagedDatabase}

theorem ownerFor_database (hd : d ∈ rows.managedDatabases)
    (hm : m.databaseId = some d.id) : rows.ownerFor m = some ⟨.db, d.slug⟩ := by
  have happ : m.applicationId = none := by
    have hone := m.oneOwner
    rcases ha : m.applicationId with _ | a
    · rfl
    · simp only [ha, hm, isSome_some, Bool.toNat_true] at hone
      omega
  simp [Rows.ownerFor, ownerFor, happ, hm, get_byId rows.databaseIds hd]

variable {s : ComposeApp}

theorem ownerFor_composeApp (hs : s ∈ rows.composeApps)
    (hm : m.composeAppId = some s.id) : rows.ownerFor m = some ⟨.compose, s.slug⟩ := by
  have hnone : m.applicationId = none ∧ m.databaseId = none := by
    have hone := m.oneOwner
    rcases ha : m.applicationId with _ | a <;> rcases hd : m.databaseId with _ | d
    · exact ⟨rfl, rfl⟩
    all_goals simp [ha, hd, hm] at hone
  simp [Rows.ownerFor, ownerFor, hnone, hm, get_byId rows.composeIds hs]

section Expected
variable {rows : Rows} {m : Mount} {o : Owner}

theorem volumeNameFor_expected (hm : m ∈ rows.mounts) (ho : rows.ownerFor m = some o)
    (ht : m.type = .volume) : m.volumeNameFor o ∈ expectedVolumes rows := by
  refine mem_append_right _ (mem_filterMap.mpr ⟨m, hm, ?_⟩)
  simp [ho, ht]

theorem filesVolumeFor_expected (hm : m ∈ rows.mounts) (ho : rows.ownerFor m = some o)
    (ht : m.type = .file) : filesVolumeFor o ∈ expectedVolumes rows := by
  refine mem_append_right _ (mem_filterMap.mpr ⟨m, hm, ?_⟩)
  simp [ho, ht]

theorem volumeNameForDb_expected (hd : d ∈ rows.managedDatabases) :
    volumeNameForDb d.slug ∈ expectedVolumes rows := by
  unfold expectedVolumes
  simp only [mem_append, List.mem_map]
  exact .inl (.inl (.inr ⟨d, hd, rfl⟩))

theorem composeVolumeFor_expected (hs : s ∈ rows.composeApps) :
    composeVolumeFor s.slug ∈ expectedVolumes rows := by
  unfold expectedVolumes
  simp only [mem_append, List.mem_map]
  exact .inl (.inr ⟨s, hs, rfl⟩)

theorem backupsVolume_expected : backupsVolume ∈ expectedVolumes rows := by
  unfold expectedVolumes
  simp only [mem_append]
  exact .inl (.inl (.inl (by simp [fixedVolumes])))

end Expected

def Rows.MountsOf (rows : Rows) (o : Owner) (mounts : List Mount) : Prop :=
  ∀ m ∈ mounts, m ∈ rows.mounts ∧ rows.ownerFor m = some o

section MountsOf
variable {rows : Rows} {o : Owner} {mounts : List Mount} {v : JsString}

theorem prepareMounts_expected (hmounts : rows.MountsOf o mounts)
    (hv : v ∈ prepareMounts o mounts) : v ∈ expectedVolumes rows := by
  unfold prepareMounts at hv
  rcases mem_append.mp hv with hv | hv
  · obtain ⟨m, hm, rfl⟩ := mem_map.mp hv
    obtain ⟨hm, ht⟩ := mem_filter.mp hm
    exact volumeNameFor_expected (hmounts m hm).1 (hmounts m hm).2 (of_decide_eq_true ht)
  · split at hv
    · cases hv
    · rename_i hfiles
      obtain ⟨m, hm⟩ := exists_mem_of_ne_nil _ hfiles
      obtain ⟨hm, ht⟩ := mem_filter.mp hm
      rw [mem_singleton] at hv
      subst hv
      exact filesVolumeFor_expected (hmounts m hm).1 (hmounts m hm).2 (of_decide_eq_true ht)

theorem bindsFor_expected (hmounts : rows.MountsOf o mounts) (hv : v ∈ bindsFor o mounts) :
    v ∈ expectedVolumes rows := by
  obtain ⟨m, hm, hname⟩ := mem_filterMap.mp hv
  split at hname
  · rename_i ht
    cases hname
    exact volumeNameFor_expected (hmounts m hm).1 (hmounts m hm).2 ht
  · cases hname

theorem renderOverride_subset (slug : Slug) (mounts : List Mount) :
    renderOverride slug mounts ⊆ bindsFor ⟨.compose, slug⟩ mounts := by
  intro v hv
  obtain ⟨m, hm, hname⟩ := mem_filterMap.mp hv
  split at hname
  · cases hname
  · exact mem_filterMap.mpr ⟨m, hm, hname⟩

end MountsOf

theorem mountsOf_filter {o : Owner} {q : Mount → Bool}
    (h : ∀ m, q m = true → rows.ownerFor m = some o) : rows.MountsOf o (rows.mounts.filter q) := by
  intro m hm
  obtain ⟨hm, hq⟩ := mem_filter.mp hm
  exact ⟨hm, h m hq⟩

theorem mountsOf_application (ha : a ∈ rows.applications) :
    rows.MountsOf ⟨.app, a.appName⟩ (rows.mounts.filter (·.applicationId = some a.id)) :=
  mountsOf_filter fun _ hm => ownerFor_application ha (of_decide_eq_true hm)

theorem mountsOf_database (hd : d ∈ rows.managedDatabases) :
    rows.MountsOf ⟨.db, d.slug⟩ (rows.mounts.filter (·.databaseId = some d.id)) :=
  mountsOf_filter fun _ hm => ownerFor_database hd (of_decide_eq_true hm)

theorem mountsOf_composeApp (hs : s ∈ rows.composeApps) :
    rows.MountsOf ⟨.compose, s.slug⟩ (rows.mounts.filter (·.composeAppId = some s.id)) :=
  mountsOf_filter fun _ hm => ownerFor_composeApp hs (of_decide_eq_true hm)

variable {r : Runner}

/-- **What the runner of a live row mounts or creates is expected.** -/
theorem mem_expectedVolumes (live : r.Live rows) {v : JsString}
    (hv : v ∈ r.volumes rows) : v ∈ expectedVolumes rows := by
  cases r with
  | application a | applicationJob a =>
    rcases mem_append.mp hv with hv | hv
    · exact prepareMounts_expected (mountsOf_application live) hv
    · exact bindsFor_expected (mountsOf_application live) hv
  | database d =>
    rcases mem_append.mp hv with hv | hv
    · rcases mem_cons.mp hv with rfl | hv
      · exact volumeNameForDb_expected live
      · exact prepareMounts_expected (mountsOf_database live) hv
    · exact bindsFor_expected (mountsOf_database live) hv
  | stack s =>
    rcases mem_append.mp hv with hv | hv
    · rcases mem_cons.mp hv with rfl | hv
      · exact composeVolumeFor_expected live
      · exact prepareMounts_expected (mountsOf_composeApp live) hv
    · exact bindsFor_expected (mountsOf_composeApp live) (renderOverride_subset _ _ hv)
  | volumeBackup b =>
    rcases mem_cons.mp hv with rfl | hv
    · exact backupsVolume_expected
    · obtain ⟨a, ha, hv⟩ := mem_flatMap.mp hv
      obtain ⟨m, hm, rfl⟩ := mem_map.mp hv
      obtain ⟨ha, hid⟩ := mem_filter.mp ha
      obtain ⟨hm, hmid⟩ := mem_filter.mp hm
      obtain ⟨hown, ht⟩ := rows.backupOf b live m hm (of_decide_eq_true hmid)
      rw [← of_decide_eq_true hid] at hown
      exact volumeNameFor_expected hm (ownerFor_application ha hown) ht
  | databaseBackup b =>
    rcases mem_cons.mp hv with rfl | hv
    · exact backupsVolume_expected
    · obtain ⟨d, hd, rfl⟩ := mem_map.mp hv
      exact volumeNameForDb_expected (mem_filter.mp hd).1
  | preview p | databaseJob d | companion k | stackJob s => cases hv

/-! ## Orphaned containers -/

inductive OrphanContainerKind where
  | application | database | companion | compose
  deriving DecidableEq, Repr

/-- The `aoox.component` of a container of this kind. -/
def OrphanContainerKind.word : OrphanContainerKind → JsString
  | .application => js "application"
  | .database => js "database"
  | .companion => js "companion"
  | .compose => js "compose"

/-- The label that holds the id of its row. -/
def OrphanContainerKind.key : OrphanContainerKind → JsString
  | .application => js "aoox.application"
  | .database => js "aoox.database"
  | .companion => js "aoox.companion"
  | .compose => js "aoox.compose"

structure ContainerSummary where
  id : JsString
  names : Option (List JsString)
  (image state : JsString)
  labels : Option Labels

structure OrphanContainer where
  (id name : JsString)
  kind : OrphanContainerKind
  (image state ownerId : JsString)

structure KnownOwners where
  (applications databases composeApps composeSlugs : List JsString)

structure ContainerOwner where
  kind : OrphanContainerKind
  ownerId : JsString
  slug : Bool

/-- The display name, without the leading slash of Docker. -/
def containerName (c : ContainerSummary) : JsString :=
  match (c.names.bind List.head?).getD (sliceTo c.id 12) with
  | [] => []
  | u :: rest => if u = cu '/' then rest else u :: rest

/-- `^[a-z0-9][a-z0-9-]*$` -/
def isStackSlug : JsString → Bool
  | [] => false
  | u :: rest => isSlugUnit u && u != cu '-' && rest.all isSlugUnit

/-- A container of a stack without our label: in the project `aoox-<slug>` and started
from the checkout volume. -/
def bareStack (l : Labels) : Option ContainerOwner :=
  let project := (Assoc.get l projectLabel).getD []
  if !startsWith project (js "aoox-") then none
  else
    let slug := sliceFrom project (js "aoox-").length
    if !isStackSlug slug then none
    else if !includes ((Assoc.get l workdirLabel).getD [])
        (js "/aoox_compose_" ++ slug ++ js "/_data") then none
    else some ⟨.compose, slug, true⟩

def labelledOwner (l : Labels) (kind : OrphanContainerKind) : Option ContainerOwner :=
  if Assoc.get l componentLabel = some kind.word then
    (truthy (Assoc.get l kind.key)).map fun id => ⟨kind, id, false⟩
  else none

/-- The resource that owns a container, decided from its labels only. -/
def ownerOf (c : ContainerSummary) : Option ContainerOwner :=
  let l := c.labels.getD []
  if (truthy (Assoc.get l (js "com.docker.swarm.service.id"))).isSome ||
      (truthy (Assoc.get l (js "com.docker.swarm.task.id"))).isSome then none
  else
    (labelledOwner l .application).or <| (labelledOwner l .database).or <|
      (labelledOwner l .companion).or <| (labelledOwner l .compose).or <|
      if (truthy (Assoc.get l componentLabel)).isSome then none else bareStack l

/-- The row a container names is still there. -/
def KnownOwners.has (known : KnownOwners) (owner : ContainerOwner) : Bool :=
  match owner.kind with
  | .application => known.applications.contains owner.ownerId
  | .database | .companion => known.databases.contains owner.ownerId
  | .compose =>
    if owner.slug then known.composeSlugs.contains owner.ownerId
    else known.composeApps.contains owner.ownerId

/-- The containers whose row is gone, by name.  How names compare is left to the locale. -/
def orphanedContainers (localeLE : JsString → JsString → Bool)
    (containers : List ContainerSummary) (known : KnownOwners) : List OrphanContainer :=
  let out := containers.filterMap fun c => (ownerOf c).bind fun owner =>
    if known.has owner then none
    else some ⟨c.id, containerName c, owner.kind, c.image, c.state, owner.ownerId⟩
  out.mergeSort fun a b => localeLE a.name b.name

/-- Ids of every row that can own a container. -/
def knownOwners (rows : Rows) : KnownOwners where
  applications := rows.applications.map (·.id.text)
  databases := rows.managedDatabases.map (·.id.text)
  composeApps := rows.composeApps.map (·.id.text)
  composeSlugs := rows.composeApps.map (·.slug.text)

theorem word_injective : Function.Injective OrphanContainerKind.word := by
  intro a b h
  revert h
  cases a <;> cases b <;> decide

variable {c : ContainerSummary} {owner : ContainerOwner}

variable {kind : OrphanContainerKind} {id : Id}

theorem ownerOf_word (hcomponent : Assoc.get (c.labels.getD []) componentLabel = some kind.word)
    (hid : Assoc.get (c.labels.getD []) kind.key = some id.text)
    (h : ownerOf c = some owner) : owner = ⟨kind, id.text, false⟩ := by
  have hother : ∀ k, k ≠ kind → labelledOwner (c.labels.getD []) k = none := by
    intro k hk
    have hword : kind.word ≠ k.word := fun h => hk (word_injective h.symm)
    simp [labelledOwner, hcomponent, hword]
  have hown : labelledOwner (c.labels.getD []) kind = some ⟨kind, id.text, false⟩ := by
    simp [labelledOwner, hcomponent, hid, truthy, id.nonempty]
  unfold ownerOf at h
  simp only at h
  split at h
  · cases h
  · cases kind <;> simp [hown, hother] at h <;> exact h.symm

theorem ownerOf_other {word : JsString} (hne : word ≠ [])
    (hcomponent : Assoc.get (c.labels.getD []) componentLabel = some word)
    (hword : ∀ kind : OrphanContainerKind, word ≠ kind.word) : ownerOf c = none := by
  have hother : ∀ k, labelledOwner (c.labels.getD []) k = none := by
    intro k
    simp [labelledOwner, hcomponent, hword]
  simp [ownerOf, hother, hcomponent, truthy, hne]

/-- Without a component the compose project decides. -/
theorem ownerOf_bare (hcomponent : Assoc.get (c.labels.getD []) componentLabel = none)
    (h : ownerOf c = some owner) : bareStack (c.labels.getD []) = some owner := by
  have hother : ∀ k, labelledOwner (c.labels.getD []) k = none := by
    intro k
    simp [labelledOwner, hcomponent]
  unfold ownerOf at h
  simp only at h
  split at h
  · cases h
  · simpa [hother, hcomponent, truthy] using h

/-- The helpers of the panel are in its own project, which no stack has. -/
theorem ownerOf_mountHelper (h : mountHelper.On (c.labels.getD [])) : ownerOf c = none := by
  have hcomponent := h (componentLabel, none) (by simp [mountHelper])
  have hproject := h (projectLabel, some (js "aoox")) (by simp [mountHelper])
  have hstart : startsWith (js "aoox") (js "aoox-") = false := by decide
  rcases ho : ownerOf c with _ | owner
  · rfl
  · have hbare := ownerOf_bare hcomponent ho
    simp [bareStack, hproject, hstart] at hbare

theorem bareStack_owner {l : Labels} {slug : Slug}
    (hproject : Assoc.get l projectLabel = some (js "aoox-" ++ slug.text))
    (h : bareStack l = some owner) : owner = ⟨.compose, slug.text, true⟩ := by
  have hslug : sliceFrom (js "aoox-" ++ slug.text) (js "aoox-").length = slug.text := drop_left
  unfold bareStack at h
  simp only [hproject, getD_some, hslug] at h
  split at h
  · cases h
  · split at h
    · cases h
    · split at h
      · cases h
      · cases h
        rfl

section Known
variable {rows : Rows}

theorem application_known (h : id ∈ rows.applications.map (·.id)) :
    (knownOwners rows).has ⟨.application, id.text, false⟩ = true := by
  obtain ⟨a, ha, rfl⟩ := mem_map.mp h
  exact contains_iff_mem.mpr (mem_map.mpr ⟨a, ha, rfl⟩)

theorem database_known (h : id ∈ rows.managedDatabases.map (·.id))
    (hkind : kind = .database ∨ kind = .companion) :
    (knownOwners rows).has ⟨kind, id.text, false⟩ = true := by
  obtain ⟨d, hd, rfl⟩ := mem_map.mp h
  have hmem := contains_iff_mem.mpr (mem_map.mpr ⟨d, hd, rfl⟩ :
    d.id.text ∈ (knownOwners rows).databases)
  rcases hkind with rfl | rfl <;> exact hmem

theorem composeApp_known (hs : s ∈ rows.composeApps) :
    (knownOwners rows).has ⟨.compose, s.id.text, false⟩ = true :=
  contains_iff_mem.mpr (mem_map.mpr ⟨s, hs, rfl⟩)

theorem slug_known (hs : s ∈ rows.composeApps) :
    (knownOwners rows).has ⟨.compose, s.slug.text, true⟩ = true :=
  contains_iff_mem.mpr (mem_map.mpr ⟨s, hs, rfl⟩)

end Known

variable {known : KnownOwners}

/-- A container with the component and the owner label of one kind. -/
theorem known_of_on (kind : OrphanContainerKind) (id : Id) {rest : Stamp}
    (hon : Stamp.On ((componentLabel, some kind.word) :: (kind.key, some id.text) :: rest)
      (c.labels.getD [])) (ho : ownerOf c = some owner)
    (hknown : known.has ⟨kind, id.text, false⟩ = true) : known.has owner = true := by
  have hcomponent := hon (componentLabel, some kind.word) (by simp)
  have hid := hon (kind.key, some id.text) (by simp)
  rw [ownerOf_word hcomponent hid ho]
  exact hknown

/-- **A container the runner of a live row starts has no owner, or one that exists.** -/
theorem ownerOf_known (live : r.Live rows) {stamp : Stamp} (hstamp : stamp ∈ r.containers)
    (hon : stamp.On (c.labels.getD []))
    (ho : ownerOf c = some owner) : (knownOwners rows).has owner = true := by
  have hhelper : stamp ≠ mountHelper := by
    rintro rfl
    rw [ownerOf_mountHelper hon] at ho
    cases ho
  have hother : ∀ word : String, js word ≠ [] →
      (∀ kind : OrphanContainerKind, js word ≠ kind.word) → component word ∉ stamp := by
    intro word hne hword hmem
    rw [ownerOf_other hne (hon _ hmem) hword] at ho
    cases ho
  have hjob := hother "job" (by decide) (by intro kind; cases kind <;> decide)
  have hbuild := hother "build" (by decide) (by intro kind; cases kind <;> decide)
  have hbackup := hother "backup" (by decide) (by intro kind; cases kind <;> decide)
  cases r with
  | application a =>
    simp only [Runner.containers, mem_cons, hhelper, not_mem_nil, or_false] at hstamp
    subst hstamp
    exact known_of_on .application a.id hon ho (application_known (mem_map.mpr ⟨a, live, rfl⟩))
  | preview p =>
    simp only [Runner.containers, mem_cons, not_mem_nil, or_false] at hstamp
    subst hstamp
    exact known_of_on .application p.applicationId hon ho
      (application_known (rows.previewOf p live))
  | database d =>
    simp only [Runner.containers, mem_cons, hhelper, not_mem_nil, or_false] at hstamp
    subst hstamp
    exact known_of_on .database d.id hon ho (database_known (mem_map.mpr ⟨d, live, rfl⟩) (.inl rfl))
  | companion k =>
    simp only [Runner.containers, mem_cons, not_mem_nil, or_false] at hstamp
    subst hstamp
    exact known_of_on .companion k.databaseId hon ho
      (database_known (rows.companionOf k live) (.inr rfl))
  | stack s =>
    simp only [Runner.containers, mem_cons, hhelper, not_mem_nil, or_false] at hstamp
    rcases hstamp with rfl | rfl | rfl
    · exact known_of_on .compose s.id hon ho (composeApp_known live)
    · have hproject := hon (projectLabel, some (js "aoox-" ++ s.slug.text)) (by simp)
      have hcomponent := hon (componentLabel, none) (by simp)
      rw [bareStack_owner hproject (ownerOf_bare hcomponent ho)]
      exact slug_known live
    · exact absurd mem_cons_self hbuild
  | applicationJob a | databaseJob a | stackJob a =>
    simp only [Runner.containers, mem_cons, hhelper, not_mem_nil, or_false] at hstamp
    subst hstamp
    exact absurd mem_cons_self hjob
  | volumeBackup b | databaseBackup b =>
    simp only [Runner.containers, mem_cons, not_mem_nil, or_false] at hstamp
    subst hstamp
    exact absurd mem_cons_self hbackup

/-! ## Nothing of a live row is listed -/

/-- The volumes and containers of a daemon. -/
structure Daemon where
  volumes : List JsString
  containers : List ContainerSummary
  containerIds : (containers.map (·.id)).Nodup

theorem mem_orphanedContainers {localeLE : JsString → JsString → Bool}
    {containers : List ContainerSummary} {o : OrphanContainer}
    (h : o ∈ orphanedContainers localeLE containers known) :
    ∃ c ∈ containers, o.id = c.id ∧ ∃ owner, ownerOf c = some owner ∧ known.has owner = false := by
  rw [orphanedContainers, mem_mergeSort] at h
  obtain ⟨c, hc, ho⟩ := mem_filterMap.mp h
  obtain ⟨owner, hown, ho⟩ := bind_eq_some_iff.mp ho
  split at ho
  · cases ho
  · rename_i hknown
    cases ho
    exact ⟨c, hc, rfl, owner, hown, Bool.eq_false_iff.mpr hknown⟩

/-- **Neither the volumes nor the containers of a live row are ever listed.**  A
container is recognised by the labels it carries, whatever other labels it has. -/
theorem live_spared (localeLE : JsString → JsString → Bool) (rows : Rows) (daemon : Daemon)
    (r : Runner) (live : r.Live rows) :
    (∀ v ∈ r.volumes rows, v ∉ orphanedVolumes daemon.volumes (expectedVolumes rows)) ∧
      ∀ c ∈ daemon.containers, (∃ stamp ∈ r.containers, stamp.On (c.labels.getD [])) →
        ∀ o ∈ orphanedContainers localeLE daemon.containers (knownOwners rows), o.id ≠ c.id := by
  constructor
  · intro v hv horphan
    have hgone : (expectedVolumes rows).contains v = false := by
      have hkept := (List.mem_filter.mp horphan).2
      simp only [Bool.and_eq_true, Bool.not_eq_true'] at hkept
      exact hkept.2
    rw [List.contains_iff_mem.mpr (mem_expectedVolumes live hv)] at hgone
    cases hgone
  · rintro c hc ⟨stamp, hstamp, hon⟩ o ho hid
    obtain ⟨c', hc', hid', owner, hown, hgone⟩ := mem_orphanedContainers ho
    have hsame : c' = c :=
      List.inj_on_of_nodup_map daemon.containerIds hc' hc (hid'.symm.trans hid)
    rw [ownerOf_known live hstamp (hsame ▸ hon) hown] at hgone
    cases hgone

def shop : Application := ⟨⟨js "5f0c", by decide⟩, ⟨js "shop-x7", by decide⟩⟩

/-- An application with one `volume` mount. -/
def shopRows : Rows where
  applications := [shop]
  managedDatabases := []
  composeApps := []
  mounts := [⟨⟨js "9a1b", by decide⟩, some shop.id, none, none, none, .volume, some (js "data"), rfl⟩]
  previews := []
  companions := []
  volumeBackups := []
  databaseBackups := []
  applicationIds := by simp
  databaseIds := by simp
  composeIds := by simp
  previewOf := by simp
  companionOf := by simp
  backupOf := by simp

def shopContainer : ContainerSummary :=
  ⟨js "c0ffee", some [js "/aoox-app-shop-x7"], js "shop:1", js "running",
    some [(js "aoox.component", js "application"), (js "aoox.application", js "5f0c")]⟩

/-- The container of a database that was deleted. -/
def staleContainer : ContainerSummary :=
  ⟨js "decade", some [js "/aoox-db-old"], js "postgres:17", js "exited",
    some [(js "aoox.component", js "database"), (js "aoox.database", js "77aa")]⟩

def shopDaemon : Daemon where
  volumes := [js "aoox_app_shop_x7_data", js "aoox_db_old", js "aoox_backups"]
  containers := [shopContainer, staleContainer]
  containerIds := by decide

/-- The application keeps its volume and container; what the deleted database left is listed. -/
theorem live_spared_shop :
    js "aoox_app_shop_x7_data" ∉ orphanedVolumes shopDaemon.volumes (expectedVolumes shopRows) ∧
      (∀ o ∈ orphanedContainers (fun a b => !decide (b < a)) shopDaemon.containers
        (knownOwners shopRows), o.id ≠ shopContainer.id) ∧
      orphanedVolumes shopDaemon.volumes (expectedVolumes shopRows) = [js "aoox_db_old"] := by
  have h := live_spared (fun a b => !decide (b < a)) shopRows shopDaemon (.application shop)
    List.mem_cons_self
  refine ⟨h.1 _ (by decide), h.2 shopContainer List.mem_cons_self ?_, by decide⟩
  exact ⟨[component "application", ownedBy "aoox.application" shop.id], by decide, by decide⟩

end Aoox.Orphans
