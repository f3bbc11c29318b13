import Aoox.EnvText
import Aoox.Grouping
import Aoox.OrphanResources

/-! # The override of a compose stack

What a stack's services get beyond their compose file is written into an override:
routes, host ports, mounts and limits are folded into one plain object keyed by the
service names the user chose.  A plain object inherits the members of
`Object.prototype`, so `services[name] ??= {}` finds something under a name like
`toString` that was never put there, and fills *that* object: the service has no entry,
and the fields land on a built-in every other object shares.

The model keeps the built-ins the loops have written to beside the object (`World`).
While no service has an inherited name nothing outside is touched and each entry is made
of the items of its service alone (`run_clean`).  Router names lose the difference
between `.`, `_` and `-`, so two services may share one (`routerFor_inj_iff`); volume
aliases are lossy as well, but never more than the names of the volumes themselves
(`volumeName_of_alias`).
-/
open List
namespace Aoox.Compose

open JsString Volumes

/-! ## Items -/

structure ServiceDomain where
  service : JsString
  port : Nat
  host : JsString
  https : Bool

inductive HostPortBind where
  | publicBind | loopback
  deriving Repr

structure ServicePort where
  service : JsString
  (port hostPort : Nat)
  bind : Option HostPortBind

structure ServiceResources where
  service : JsString
  (cpuMillicores memoryMb : Option Nat)

/-- What a mount row holds for its type; `volume` and `file` rows always have a name. -/
inductive MountSource where
  | volume (name : JsString)
  | bind (hostPath : Option JsString)
  | file (name : JsString)

/-- A row of `mounts` of a stack. -/
structure ComposeMount where
  service : Option JsString
  source : MountSource
  containerPath : JsString
  readOnly : Bool

/-- The service names the API accepts: `/^[a-zA-Z0-9_.-]+$/`. -/
def isServiceName (name : JsString) : Bool :=
  !name.isEmpty && name.all fun c =>
    isLetter c || isDigit c || c = cu '_' || c = cu '.' || c = cu '-'

/-! ## Parts of an entry -/

structure VolumeEntry where
  isVolume : Bool
  (source target : JsString)
  readOnly : Bool
  deriving DecidableEq

structure Limits where
  (cpus memory : Option JsString)
  deriving DecidableEq

/-- The own fields of an entry; `none` is a field that is not there. -/
structure OverrideService where
  labels : Option (List (JsString × JsString)) := none
  networks : Option (List JsString) := none
  ports : Option (List JsString) := none
  volumes : Option (List VolumeEntry) := none
  deploy : Option Limits := none
  deriving DecidableEq

/-- An object without own fields. -/
def blank : OverrideService := {}

def composeHostPrefix : Option HostPortBind → JsString
  | some .loopback => js "127.0.0.1:"
  | _ => []

/-- `(n / 1000).toString()`: at most three decimals, without trailing zeros. -/
def thousandths (n : Nat) : JsString :=
  js (toString (n / 1000)) ++
    if n % 1000 = 0 then [] else js "." ++ (padStart 3 (n % 1000)).rdropWhile (· = cu '0')

def resourceLimitFields (r : ServiceResources) : Limits :=
  ⟨(r.cpuMillicores.filter (· ≠ 0)).map thousandths,
    (r.memoryMb.filter (· ≠ 0)).map fun n => js (toString n) ++ js "M"⟩

/-- `text.replace(/[^a-zA-Z0-9-]/g, '-')`. -/
def dashed (text : JsString) : JsString :=
  text.map fun c => if isLetter c || isDigit c || c = cu '-' then c else cu '-'

section Render
variable (slug : Slug)

def routerFor (service : JsString) (port : Nat) : JsString :=
  dashed (slug.text ++ (cu '-' :: (service ++ (cu '-' :: js (toString port)))))

/-- Named volume for a `volume` mount of a stack. -/
def volumeNameFor (service name : JsString) : JsString :=
  prefixFor ⟨.compose, slug⟩ ++ cu '_' ::
    ((if service = [] then [] else underscored service ++ [cu '_']) ++ underscored name)

/-- The key of a volume's declaration. -/
def aliasFor (service name : JsString) : JsString := service ++ cu '_' :: name

/-- `filePath` of a mount with a service. -/
def filePath (service name : JsString) : JsString := service ++ cu '/' :: name

/-- What one item does to the entry of its service. -/
inductive Update where
  | route (labels : List (JsString × JsString))
  | port (text : JsString)
  | volume (entry : VolumeEntry)
  | nothing
  | limits (l : Limits)

/-- `(entry.field ??= []).push(x)`: the list may be one the object inherits. -/
def pushInto {α : Type} (own inherited : Option (List α)) (x : α) :
    Option (List α) × Option (List α) :=
  match own, inherited with
  | some xs, _ => (some (xs ++ [x]), inherited)
  | none, some xs => (none, some (xs ++ [x]))
  | none, none => (some [x], none)

def appNetwork : JsString := js "aoox"

/-- The entry and the object it inherits from after an item. -/
def Update.apply (u : Update) (proto entry : OverrideService) :
    OverrideService × OverrideService :=
  match u with
  | .route labels =>
    ({ entry with
        networks := if (entry.networks.or proto.networks).isSome then entry.networks
          else some [js "default", appNetwork]
        labels := some (Assoc.setAll ((entry.labels.or proto.labels).getD []) labels) }, proto)
  | .port text =>
    let (own, inherited) := pushInto entry.ports proto.ports text
    ({ entry with ports := own }, { proto with ports := inherited })
  | .volume v =>
    let (own, inherited) := pushInto entry.volumes proto.volumes v
    ({ entry with volumes := own }, { proto with volumes := inherited })
  | .nothing => (entry, proto)
  | .limits l => ({ entry with deploy := some l }, proto)

/-! ## The object and what it inherits from -/

/-- The object `services`, and what has been written to objects outside it, by the name
under which `Object.prototype` has them; `__proto__` is `Object.prototype` itself. -/
structure World where
  (services outside : List (JsString × OverrideService))

def World.proto (w : World) : OverrideService :=
  (Assoc.get w.outside (js "__proto__")).getD blank

/-- A field `Object.prototype` was given, as a name every object inherits. -/
def OverrideService.hasField (e : OverrideService) (name : JsString) : Bool :=
  (name = js "labels" && e.labels.isSome) || (name = js "networks" && e.networks.isSome) ||
    (name = js "ports" && e.ports.isSome) || (name = js "volumes" && e.volumes.isSome) ||
    (name = js "deploy" && e.deploy.isSome)

/-- `services[name]` is something although `services` has no such entry. -/
def World.inherits (w : World) (name : JsString) : Bool :=
  name ∈ objectPrototype || w.proto.hasField name

/-- Writes to an object outside; one that inherits from `Object.prototype` may change a list
found there. -/
def World.updateOutside (w : World) (name : JsString) (u : Update) : World :=
  if name = js "__proto__" then
    { w with outside := Assoc.set w.outside name (u.apply blank w.proto).1 }
  else
    let (entry, proto) := u.apply w.proto ((Assoc.get w.outside name).getD blank)
    let outside := Assoc.set w.outside name entry
    { w with outside :=
      if proto = w.proto then outside else Assoc.set outside (js "__proto__") proto }

/-- `const entry = (services[service] ??= {})` and what the item does to it. -/
def World.update (w : World) (item : JsString × Update) : World :=
  let own := fun e =>
    let (entry, proto) := item.2.apply w.proto e
    { services := Assoc.set w.services item.1 entry
      outside := if proto = w.proto then w.outside
        else Assoc.set w.outside (js "__proto__") proto : World }
  match Assoc.get w.services item.1 with
  | some e => own e
  | none => if w.inherits item.1 then w.updateOutside item.1 item.2 else own blank

/-! ## The loops -/

-- `labelsFor(routerName, port, hosts)`
variable (labelsFor : JsString → Nat → List (JsString × Bool) → List (JsString × JsString))

def domainKey (d : ServiceDomain) : JsString := d.service ++ cu ':' :: js (toString d.port)

def routeOf (group : List ServiceDomain) : Option (JsString × Update) :=
  group.head?.map fun d => (d.service, .route (labelsFor (routerFor slug d.service d.port) d.port
    (group.map fun d => (d.host, d.https))))

def routeUpdates (domains : List ServiceDomain) : List (JsString × Update) :=
  (Grouping.collect domainKey domains).filterMap fun e => routeOf slug labelsFor e.2

def portText (p : ServicePort) : JsString :=
  composeHostPrefix p.bind ++ (js (toString p.hostPort) ++ cu ':' :: js (toString p.port))

def portUpdates (ports : List ServicePort) : List (JsString × Update) :=
  ports.map fun p => (p.service, .port (portText p))

variable (filesMountpoint : Option JsString)

def ComposeMount.update (m : ComposeMount) (service : JsString) : Update :=
  match m.source with
  | .volume name => .volume ⟨true, aliasFor service name, m.containerPath, m.readOnly⟩
  | .bind hostPath => .volume ⟨false, hostPath.getD [], m.containerPath, m.readOnly⟩
  | .file name =>
    match Orphans.truthy filesMountpoint with
    | some mountpoint =>
      .volume ⟨false, mountpoint ++ cu '/' :: filePath service name, m.containerPath, true⟩
    | none => .nothing

def mountUpdates (mounts : List ComposeMount) : List (JsString × Update) :=
  mounts.filterMap fun m => (Orphans.truthy m.service).map fun service =>
    (service, m.update filesMountpoint service)

def resourceUpdates (resources : List ServiceResources) : List (JsString × Update) :=
  resources.filterMap fun r =>
    let limits := resourceLimitFields r
    if limits.cpus.isNone && limits.memory.isNone then none else some (r.service, .limits limits)

/-- `volumeDecls`: every volume mount under its alias. -/
def volumeDecls (mounts : List ComposeMount) : List (JsString × JsString) :=
  mounts.foldl (fun decls m =>
    match Orphans.truthy m.service, m.source with
    | some service, .volume name =>
      assign decls (aliasFor service name) (volumeNameFor slug service name)
    | _, _ => decls) []

structure Items where
  domains : List ServiceDomain
  ports : List ServicePort
  mounts : List ComposeMount
  resources : List ServiceResources

variable (items : Items)

def updates : List (JsString × Update) :=
  routeUpdates slug labelsFor items.domains ++ portUpdates items.ports ++
    mountUpdates filesMountpoint items.mounts ++ resourceUpdates items.resources

def run (us : List (JsString × Update)) : World := us.foldl World.update ⟨[], []⟩

def ownershipLabels (composeId : JsString) : List (JsString × JsString) :=
  [(js "aoox.component", js "compose"), (js "aoox.compose", composeId)]

/-- The ownership labels on top of an entry's own (or inherited) ones. -/
def stamp (composeId : JsString) (proto entry : OverrideService) : OverrideService :=
  { entry with
    labels := some (Assoc.setAll ((entry.labels.or proto.labels).getD [])
      (ownershipLabels composeId)) }

structure Override where
  services : List (JsString × OverrideService)
  networks : Option (List JsString)
  volumes : Option (List (JsString × JsString))

/-- The object whose JSON text is the override, `none` when nothing is exposed, and what
the call has written to objects outside. -/
def renderOverride (composeId : JsString) : Option Override × List (JsString × OverrideService) :=
  if items.domains = [] ∧ items.ports = [] ∧ items.mounts = [] ∧ items.resources = [] then
    (none, [])
  else
    let w := run (updates slug labelsFor filesMountpoint items)
    let decls := volumeDecls slug items.mounts
    (some
      { services := w.services.map fun e => (e.1, stamp composeId w.proto e.2)
        networks := if items.domains = [] then none else some [appNetwork]
        volumes := if decls = [] then none else some decls },
      w.outside)

end Render

/-! ## What each service should get -/

section Expected
variable (slug : Slug)
  (labelsFor : JsString → Nat → List (JsString × Bool) → List (JsString × JsString))
  (filesMountpoint : Option JsString) (items : Items)

def field {α : Type} (xs : List α) : Option (List α) := if xs = [] then none else some xs

/-- The services named by an item that is not passed over: a mount has to name a service,
a limit has to set something. -/
def namedServices : List JsString :=
  items.domains.map ServiceDomain.service ++ items.ports.map ServicePort.service ++
    items.mounts.filterMap (fun m => Orphans.truthy m.service) ++
    (items.resources.filter fun r => (resourceLimitFields r).cpus.isSome ||
      (resourceLimitFields r).memory.isSome).map ServiceResources.service

/-- The labels of the routes of one service: one router for each of its ports, with the
hosts of that port. -/
def routeLabels (service : JsString) : List (JsString × JsString) :=
  (Grouping.collect ServiceDomain.port
    (items.domains.filter fun d => d.service = service)).flatMap fun e =>
      labelsFor (routerFor slug service e.1) e.1 (e.2.map fun d => (d.host, d.https))

def volumesOf (service : JsString) : List VolumeEntry :=
  (items.mounts.filter fun m => Orphans.truthy m.service = some service).filterMap fun m =>
    match m.update filesMountpoint service with
    | .volume v => some v
    | _ => none

/-- The limits of one service: those of its last item that sets any. -/
def limitsOf (service : JsString) : Option Limits :=
  (((items.resources.filter fun r => r.service = service).map resourceLimitFields).filter
    fun l => l.cpus.isSome || l.memory.isSome).getLast?

/-- **The entry of a service**: its own routes, ports, mounts and limits, and the
ownership labels. -/
def expectedEntry (composeId service : JsString) : OverrideService where
  labels := some (Assoc.setAll (Assoc.setAll [] (routeLabels slug labelsFor items service))
    (ownershipLabels composeId))
  networks := if (items.domains.filter fun d => d.service = service) = [] then none
    else some [js "default", appNetwork]
  ports := field ((items.ports.filter fun p => p.service = service).map portText)
  volumes := field (volumesOf filesMountpoint items service)
  deploy := limitsOf items service

/-- The services, routers and volumes of the override are what the items say, and nothing
outside it has changed. -/
structure Faithful (composeId : JsString) : Prop where
  once : ∀ override, (renderOverride slug labelsFor filesMountpoint items composeId).1 =
    some override → (override.services.map Prod.fst).Nodup
  services : ∀ override, (renderOverride slug labelsFor filesMountpoint items composeId).1 =
    some override → ∀ service, Assoc.get override.services service =
      if service ∈ namedServices items
      then some (expectedEntry slug labelsFor filesMountpoint items composeId service) else none
  routers : ∀ d ∈ items.domains, ∀ d' ∈ items.domains,
    routerFor slug d.service d.port = routerFor slug d'.service d'.port →
      d.service = d'.service ∧ d.port = d'.port
  volumes : ∀ override, (renderOverride slug labelsFor filesMountpoint items composeId).1 =
    some override → ∀ m ∈ items.mounts, ∀ service name, Orphans.truthy m.service = some service →
      m.source = .volume name →
        Assoc.get (override.volumes.getD []) (aliasFor service name) =
          some (volumeNameFor slug service name)
  inside : (renderOverride slug labelsFor filesMountpoint items composeId).2 = []

end Expected

/-! ## Names -/

theorem dash_not_mem_toString (n : Nat) : cu '-' ∉ js (toString n) := by
  intro h
  exact absurd (isDigit_of_mem_toString h) (by decide)

theorem dashed_toString (n : Nat) : dashed (js (toString n)) = js (toString n) := by
  rw [dashed]
  refine (map_congr_left fun c hc => ?_).trans (map_id' _)
  rw [isDigit_of_mem_toString hc]
  simp

variable {slug : Slug}

/-- **When two routes share a router**: same port, and service names that differ in `.`,
`_` and `-` only. -/
theorem routerFor_inj_iff {service service' : JsString} {port port' : Nat} :
    routerFor slug service port = routerFor slug service' port' ↔
      dashed service = dashed service' ∧ port = port' := by
  have hparts : ∀ s n, routerFor slug s n =
      dashed slug.text ++ (cu '-' :: (dashed s ++ cu '-' :: js (toString n))) := by
    intro s n
    have hdash : (if isLetter (cu '-') || isDigit (cu '-') || cu '-' = cu '-' then cu '-'
        else cu '-') = cu '-' := by decide
    rw [routerFor, dashed, List.map_append, map_cons, List.map_append, map_cons, hdash]
    change dashed slug.text ++ cu '-' :: (dashed s ++ cu '-' :: dashed (js (toString n))) = _
    rw [dashed_toString]
  rw [hparts, hparts, append_cancel_left_eq, List.cons.injEq, eq_self, true_and]
  constructor
  · intro h
    obtain ⟨hs, hp⟩ := append_cons_inj_right (dash_not_mem_toString port)
      (dash_not_mem_toString port') h
    exact ⟨hs, js_toString_inj hp⟩
  · rintro ⟨hs, rfl⟩
    rw [hs]

theorem underscored_append (x y : JsString) :
    underscored (x ++ y) = underscored x ++ underscored y := List.map_append

/-- **Aliases lose no more than the names of the volumes do.** -/
theorem volumeName_of_alias {service service' name name' : JsString} (hs : service ≠ [])
    (hs' : service' ≠ []) (h : aliasFor service name = aliasFor service' name') :
    volumeNameFor slug service name = volumeNameFor slug service' name' := by
  have hname : ∀ {s n : JsString}, s ≠ [] → volumeNameFor slug s n =
      prefixFor ⟨.compose, slug⟩ ++ cu '_' :: underscored (aliasFor s n) := by
    intro s n hne
    rw [volumeNameFor, if_neg hne, aliasFor, underscored_append]
    simp only [append_assoc]
    rfl
  rw [hname hs, hname hs', h]

/-! ## Declared volumes -/

theorem get_assign {β : Type} (object : List (JsString × β)) (key : JsString) (value : β)
    (k : JsString) : Assoc.get (assign object key value) k =
      if key = k ∧ key ≠ js "__proto__" then some value else Assoc.get object k := by
  rw [assign]
  by_cases hp : key = js "__proto__"
  · simp [hp]
  · rw [if_neg hp, Assoc.get_set]
    simp [hp]

def volumeMounts (mounts : List ComposeMount) : List (JsString × JsString) :=
  mounts.filterMap fun m =>
    match Orphans.truthy m.service, m.source with
    | some service, .volume name => some (service, name)
    | _, _ => none

theorem truthy_ne_nil {value : Option JsString} {s : JsString}
    (h : Orphans.truthy value = some s) : s ≠ [] := by
  rw [Orphans.truthy, Option.filter_eq_some_iff] at h
  simpa using h.2

theorem mem_volumeMounts {mounts : List ComposeMount} {service name : JsString} :
    (service, name) ∈ volumeMounts mounts ↔ ∃ m ∈ mounts,
      Orphans.truthy m.service = some service ∧ m.source = .volume name := by
  rw [volumeMounts, List.mem_filterMap]
  refine exists_congr fun m => and_congr_right fun _ => ?_
  split
  · rename_i s n hs hn
    simp [hs, hn]
  · rename_i hno
    refine ⟨nofun, fun h => ?_⟩
    exact (hno service name h.1 h.2).elim

theorem volumeDecls_eq (slug : Slug) (mounts : List ComposeMount) :
    volumeDecls slug mounts = (volumeMounts mounts).foldl (fun decls v =>
      assign decls (aliasFor v.1 v.2) (volumeNameFor slug v.1 v.2)) [] := by
  rw [volumeDecls]
  generalize ([] : List (JsString × JsString)) = decls
  induction mounts generalizing decls with
  | nil => rfl
  | cons m mounts ih =>
    rw [foldl_cons, ih]
    conv => rhs; rw [volumeMounts, filterMap_cons]
    split <;> rfl

/-- Whatever is declared under an alias is the volume of a mount with that alias. -/
theorem get_declared {vs : List (JsString × JsString)} {key value : JsString}
    (h : Assoc.get (vs.foldl (fun decls v =>
      assign decls (aliasFor v.1 v.2) (volumeNameFor slug v.1 v.2)) []) key = some value) :
    ∃ v ∈ vs, aliasFor v.1 v.2 = key ∧ volumeNameFor slug v.1 v.2 = value := by
  induction vs using reverseRecOn with
  | nil => cases h
  | append_singleton vs v ih =>
    rw [foldl_append, foldl_cons, foldl_nil, get_assign] at h
    split at h
    · rename_i hkey
      exact ⟨v, by simp, hkey.1, Option.some.inj h⟩
    · obtain ⟨v', hv', hv⟩ := ih h
      exact ⟨v', mem_append_left _ hv', hv⟩

theorem proto_not_declared (slug : Slug) (vs : List (JsString × JsString)) :
    Assoc.get (vs.foldl (fun decls v =>
      assign decls (aliasFor v.1 v.2) (volumeNameFor slug v.1 v.2)) []) (js "__proto__") =
        none := by
  induction vs using reverseRecOn with
  | nil => rfl
  | append_singleton vs v ih =>
    rw [foldl_append, foldl_cons, foldl_nil, get_assign, ih, if_neg]
    rintro ⟨hkey, hne⟩
    exact hne hkey

/-- Every other alias is declared. -/
theorem get_declared_isSome {vs : List (JsString × JsString)} {v : JsString × JsString}
    (hv : v ∈ vs) (hne : aliasFor v.1 v.2 ≠ js "__proto__") :
    (Assoc.get (vs.foldl (fun decls v =>
      assign decls (aliasFor v.1 v.2) (volumeNameFor slug v.1 v.2)) [])
        (aliasFor v.1 v.2)).isSome = true := by
  induction vs using reverseRecOn with
  | nil => cases hv
  | append_singleton vs v' ih =>
    rw [foldl_append, foldl_cons, foldl_nil, get_assign]
    by_cases hsame : aliasFor v'.1 v'.2 = aliasFor v.1 v.2
    · rw [if_pos ⟨hsame, hsame ▸ hne⟩]
      rfl
    · rw [if_neg fun h => hsame h.1]
      refine ih ?_
      rcases mem_append.mp hv with h | h
      · exact h
      · exact absurd (mem_singleton.mp h ▸ rfl) hsame

/-- **A volume mount is declared under its alias with its own volume**, unless the alias is
`__proto__`. -/
theorem get_volumeDecls {mounts : List ComposeMount} {service name : JsString}
    (hv : (service, name) ∈ volumeMounts mounts) :
    Assoc.get (volumeDecls slug mounts) (aliasFor service name) =
      some (volumeNameFor slug service name) ↔ aliasFor service name ≠ js "__proto__" := by
  rw [volumeDecls_eq]
  constructor
  · intro h heq
    rw [heq, proto_not_declared] at h
    cases h
  · intro hne
    obtain ⟨value, hget⟩ := Option.isSome_iff_exists.mp (@get_declared_isSome slug _ _ hv hne)
    obtain ⟨⟨service', name'⟩, hv', halias, hvalue⟩ := get_declared hget
    have hnonempty : ∀ s n, (s, n) ∈ volumeMounts mounts → s ≠ [] := by
      intro s n hsn
      obtain ⟨m, -, hs, -⟩ := mem_volumeMounts.mp hsn
      exact truthy_ne_nil hs
    rw [hget, ← hvalue, volumeName_of_alias (hnonempty _ _ hv') (hnonempty _ _ hv) halias]

/-! ## Runs of the loops -/

@[simp] theorem apply_blank_snd (u : Update) (e : OverrideService) : (u.apply blank e).2 = blank := by
  cases u with
  | port text => cases h : e.ports <;> simp [Update.apply, pushInto, h, blank]
  | volume v => cases h : e.volumes <;> simp [Update.apply, pushInto, h, blank]
  | _ => rfl

theorem hasField_blank (name : JsString) : blank.hasField name = false := by
  simp [OverrideService.hasField, blank]

/-- One item, while nothing outside has been written to. -/
theorem update_clean {w : World} (hw : w.outside = []) {item : JsString × Update}
    (hitem : item.1 ∉ objectPrototype) :
    w.update item = ⟨Assoc.set w.services item.1
      (item.2.apply blank ((Assoc.get w.services item.1).getD blank)).1, []⟩ := by
  have hproto : w.proto = blank := by simp [World.proto, hw]
  have hinherits : w.inherits item.1 = false := by
    simp [World.inherits, hproto, hasField_blank, hitem]
  rw [World.update]
  cases hget : Assoc.get w.services item.1 with
  | none => simp [hinherits, hproto, hw]
  | some e => simp [hproto, hw]

/-- What the updates of one service make of its entry. -/
def applyAll (e : OverrideService) (us : List Update) : OverrideService :=
  us.foldl (fun e u => (u.apply blank e).1) e

theorem applyAll_append (e : OverrideService) (us vs : List Update) :
    applyAll e (us ++ vs) = applyAll (applyAll e us) vs := foldl_append

def updatesFor (us : List (JsString × Update)) (service : JsString) : List Update :=
  (us.filter fun u => u.1 = service).map Prod.snd

theorem run_concat (us : List (JsString × Update)) (u : JsString × Update) :
    run (us ++ [u]) = (run us).update u := by simp [run]

/-- **Without inherited names every entry is made of the items of its service**, and
nothing outside is written to. -/
theorem run_clean {us : List (JsString × Update)} (hus : ∀ u ∈ us, u.1 ∉ objectPrototype) :
    (run us).outside = [] ∧ ((run us).services.map Prod.fst).Nodup ∧
      ∀ service, Assoc.get (run us).services service =
        if service ∈ us.map Prod.fst then some (applyAll blank (updatesFor us service))
        else none := by
  induction us using reverseRecOn with
  | nil => exact ⟨rfl, nodup_nil, fun _ => rfl⟩
  | append_singleton us u ih =>
    obtain ⟨hout, hnodup, hget⟩ := ih fun x hx => hus x (mem_append_left _ hx)
    rw [run_concat, update_clean hout (hus u (by simp))]
    refine ⟨rfl, Assoc.nodup_set hnodup _ _, fun service => ?_⟩
    rw [Assoc.get_set, hget u.1, hget service]
    by_cases hsame : u.1 = service
    · subst hsame
      have hfor : updatesFor (us ++ [u]) u.1 = updatesFor us u.1 ++ [u.2] := by
        simp [updatesFor, filter_append]
      have hlast : u.1 ∈ (us ++ [u]).map Prod.fst := by simp
      rw [if_pos rfl, if_pos hlast, hfor, applyAll_append]
      by_cases hmem : u.1 ∈ us.map Prod.fst
      · rw [if_pos hmem]
        rfl
      · have hnone : updatesFor us u.1 = [] := by
          rw [updatesFor, map_eq_nil_iff, filter_eq_nil_iff]
          intro x hx hxu
          exact hmem (mem_map.mpr ⟨x, hx, by simpa using hxu⟩)
        rw [if_neg hmem, hnone]
        rfl
    · have hfor : updatesFor (us ++ [u]) service = updatesFor us service := by
        simp [updatesFor, filter_append, hsame]
      have hmem : service ∈ (us ++ [u]).map Prod.fst ↔ service ∈ us.map Prod.fst := by
        simp [Ne.symm hsame]
      rw [if_neg hsame, hfor]
      simp only [hmem]

/-- No entry is ever made under an inherited name. -/
theorem run_inherited (us : List (JsString × Update)) {service : JsString}
    (hs : service ∈ objectPrototype) : Assoc.get (run us).services service = none := by
  induction us using reverseRecOn with
  | nil => rfl
  | append_singleton us u ih =>
    rw [run_concat, World.update]
    cases hget : Assoc.get (run us).services u.1 with
    | some e =>
      have hne : u.1 ≠ service := by
        rintro rfl
        rw [ih] at hget
        cases hget
      simpa [Assoc.get_set, hne] using ih
    | none =>
      dsimp only
      split
      · rw [World.updateOutside]
        split <;> exact ih
      · rename_i hno
        have hne : u.1 ≠ service := by
          rintro rfl
          simp [World.inherits, hs] at hno
        simpa [Assoc.get_set, hne] using ih

/-! ## The entry of a service -/

theorem applyAll_routes (e : OverrideService) (ls : List (List (JsString × JsString))) :
    applyAll e (ls.map .route) = if ls = [] then e else { e with
      networks := if e.networks.isSome then e.networks else some [js "default", appNetwork]
      labels := some (Assoc.setAll (e.labels.getD []) ls.flatten) } := by
  induction ls generalizing e with
  | nil => rfl
  | cons l ls ih =>
    have hcons : applyAll e ((l :: ls).map .route) =
        applyAll (Update.apply (.route l) blank e).1 (ls.map .route) := rfl
    rw [hcons, ih]
    have hsetAll : ∀ m : List (JsString × JsString), Assoc.setAll (Assoc.setAll m l) ls.flatten =
        Assoc.setAll m (l ++ ls.flatten) := fun m => foldl_append.symm
    by_cases hls : ls = []
    · subst hls
      cases hn : e.networks <;> simp [Update.apply, blank, hn]
    · cases hn : e.networks <;> simp [Update.apply, blank, hn, hls, hsetAll]

theorem applyAll_ports (e : OverrideService) (ts : List JsString) :
    applyAll e (ts.map .port) = if ts = [] then e
      else { e with ports := some (e.ports.getD [] ++ ts) } := by
  induction ts generalizing e with
  | nil => rfl
  | cons t ts ih =>
    have hcons : applyAll e ((t :: ts).map .port) =
        applyAll (Update.apply (.port t) blank e).1 (ts.map .port) := rfl
    rw [hcons, ih]
    by_cases hts : ts = []
    · subst hts
      cases hp : e.ports <;> simp [Update.apply, pushInto, blank, hp]
    · cases hp : e.ports <;> simp [Update.apply, pushInto, blank, hp, hts]

def Update.volume? : Update → Option VolumeEntry
  | .volume v => some v
  | _ => none

theorem applyAll_mounts (e : OverrideService) {us : List Update}
    (hus : ∀ u ∈ us, u = .nothing ∨ ∃ v, u = .volume v) :
    applyAll e us = if us.filterMap Update.volume? = [] then e
      else { e with volumes := some (e.volumes.getD [] ++ us.filterMap Update.volume?) } := by
  induction us generalizing e with
  | nil => rfl
  | cons u us ih =>
    have ih := ih (Update.apply u blank e).1 fun x hx => hus x (mem_cons_of_mem _ hx)
    have hcons : applyAll e (u :: us) = applyAll (Update.apply u blank e).1 us := rfl
    rw [hcons, ih]
    rcases hus u mem_cons_self with rfl | ⟨v, rfl⟩
    · rfl
    · have hmap : (Update.volume v :: us).filterMap Update.volume? =
          v :: us.filterMap Update.volume? := rfl
      rw [hmap, if_neg (cons_ne_nil _ _)]
      generalize us.filterMap Update.volume? = vs
      cases vs <;> cases hv : e.volumes <;> simp [Update.apply, pushInto, blank, hv]

theorem applyAll_limits (e : OverrideService) (ls : List Limits) :
    applyAll e (ls.map .limits) = { e with deploy := ls.getLast?.or e.deploy } := by
  induction ls generalizing e with
  | nil => rfl
  | cons l ls ih =>
    have hcons : applyAll e ((l :: ls).map .limits) =
        applyAll (Update.apply (.limits l) blank e).1 (ls.map .limits) := rfl
    rw [hcons, ih]
    cases ls with
    | nil => simp [Update.apply]
    | cons l' ls =>
      rw [getLast?_cons_cons]
      obtain ⟨x, hx⟩ : ∃ x, (l' :: ls).getLast? = some x := 
        ⟨_, getLast?_eq_some_getLast (cons_ne_nil _ _)⟩
      simp [Update.apply, hx]

/-- **An entry from the items of its service**, loop by loop. -/
theorem applyAll_entry (routes : List (List (JsString × JsString))) (ports : List JsString)
    {mounts : List Update} (hmounts : ∀ u ∈ mounts, u = .nothing ∨ ∃ v, u = .volume v)
    (limits : List Limits) :
    applyAll blank (routes.map .route ++ ports.map .port ++ mounts ++ limits.map .limits) =
      { labels := if routes = [] then none else some (Assoc.setAll [] routes.flatten)
        networks := if routes = [] then none else some [js "default", appNetwork]
        ports := field ports
        volumes := field (mounts.filterMap Update.volume?)
        deploy := limits.getLast? } := by
  have hroutes : applyAll blank (routes.map .route) =
      { labels := if routes = [] then none else some (Assoc.setAll [] routes.flatten)
        networks := if routes = [] then none else some [js "default", appNetwork] } := by
    rw [applyAll_routes]
    split <;> rfl
  have hports : ∀ labels networks, applyAll ⟨labels, networks, none, none, none⟩
      (ports.map .port) = ⟨labels, networks, field ports, none, none⟩ := by
    intro labels networks
    rw [applyAll_ports, field]
    split <;> rfl
  have hvolumes : ∀ labels networks ports, applyAll ⟨labels, networks, ports, none, none⟩ mounts =
      ⟨labels, networks, ports, field (mounts.filterMap Update.volume?), none⟩ := by
    intro labels networks ports
    rw [applyAll_mounts _ hmounts, field]
    split <;> rfl
  rw [applyAll_append, applyAll_append, applyAll_append, hroutes, hports, hvolumes,
    applyAll_limits, Option.or_none]

section Entry
variable {slug : Slug}
  {labelsFor : JsString → Nat → List (JsString × Bool) → List (JsString × JsString)}
  {filesMountpoint : Option JsString} {items : Items}

theorem updatesFor_append (us vs : List (JsString × Update)) (service : JsString) :
    updatesFor (us ++ vs) service = updatesFor us service ++ updatesFor vs service := by
  simp [updatesFor, filter_append]

def routesOf (slug : Slug)
    (labelsFor : JsString → Nat → List (JsString × Bool) → List (JsString × JsString))
    (domains : List ServiceDomain) (service : JsString) : List (List (JsString × JsString)) :=
  (Grouping.collect ServiceDomain.port (domains.filter fun d => d.service = service)).map fun e =>
    labelsFor (routerFor slug service e.1) e.1 (e.2.map fun d => (d.host, d.https))

theorem colon_not_mem {service : JsString} (h : isServiceName service = true) :
    cu ':' ∉ service := by
  intro hmem
  have := (Bool.and_eq_true_iff.mp h).2
  exact absurd (List.all_eq_true.mp this _ hmem) (by decide)

variable {domains : List ServiceDomain}

/-- The text key of a group stands for its service and port. -/
theorem collect_domainKey (hnames : ∀ d ∈ domains, isServiceName d.service = true) :
    Grouping.collect domainKey domains =
      (Grouping.collect (fun d : ServiceDomain => (d.service, d.port)) domains).map fun e =>
        (e.1.1 ++ cu ':' :: js (toString e.1.2), e.2) := by
  refine @Grouping.collect_comp _ _ _ (fun d : ServiceDomain => (d.service, d.port)) domains _ _
    (fun k => k.1 ++ cu ':' :: js (toString k.2)) ?_
  intro d hd d' hd' heq
  obtain ⟨h1, h2⟩ := append_cons_inj (colon_not_mem (hnames d hd))
    (colon_not_mem (hnames d' hd')) heq
  exact Prod.ext h1 (js_toString_inj h2)

theorem routeUpdates_eq (hnames : ∀ d ∈ domains, isServiceName d.service = true) :
    routeUpdates slug labelsFor domains =
      (Grouping.collect (fun d : ServiceDomain => (d.service, d.port)) domains).map fun e =>
        (e.1.1, Update.route (labelsFor (routerFor slug e.1.1 e.1.2) e.1.2
          (e.2.map fun d => (d.host, d.https)))) := by
  rw [routeUpdates, collect_domainKey hnames, filterMap_map, ← filterMap_eq_map]
  refine filterMap_congr fun e he => ?_
  obtain ⟨⟨service, port⟩, group⟩ := e
  obtain ⟨d, rest, hgroup⟩ := exists_cons_of_ne_nil (Grouping.collect_ne_nil he)
  obtain ⟨-, hfilter⟩ := Grouping.mem_collect.mp he
  have hd : (d.service, d.port) = (service, port) := by
    have : d ∈ group := by
      change d ∈ (((service, port), group) : (JsString × Nat) × List ServiceDomain).2
      rw [hgroup]
      exact mem_cons_self
    rw [hfilter] at this
    simpa using (mem_filter.mp this).2
  obtain ⟨rfl, rfl⟩ := Prod.mk.inj hd
  simp only at hgroup
  simp [routeOf, hgroup]

theorem updatesFor_routes (hnames : ∀ d ∈ domains, isServiceName d.service = true)
    (service : JsString) :
    updatesFor (routeUpdates slug labelsFor domains) service =
      (routesOf slug labelsFor domains service).map .route := by
  have hport : Grouping.collect ServiceDomain.port (domains.filter fun d => d.service = service) =
      (Grouping.collect (fun d : ServiceDomain => (d.service, d.port))
        (domains.filter fun d => d.service = service)).map fun e => (e.1.2, e.2) := by
    refine @Grouping.collect_comp _ _ _ (fun d : ServiceDomain => (d.service, d.port)) _ _ _
      Prod.snd ?_
    intro d hd d' hd' heq
    have h1 : d.service = service := by simpa using (mem_filter.mp hd).2
    have h2 : d'.service = service := by simpa using (mem_filter.mp hd').2
    exact Prod.ext (h1.trans h2.symm) heq
  have hfilter := Grouping.collect_filter (fun d : ServiceDomain => (d.service, d.port))
    (fun k => k.1 = service) domains
  rw [updatesFor, routeUpdates_eq hnames, filter_map, map_map, routesOf, hport, map_map, map_map]
  change ((Grouping.collect (fun d : ServiceDomain => (d.service, d.port)) domains).filter
    fun e => decide (e.1.1 = service)).map _ = _
  rw [hfilter]
  refine map_congr_left fun e he => ?_
  obtain ⟨⟨service', port⟩, group⟩ := e
  obtain ⟨hk, -⟩ := Grouping.mem_collect.mp he
  obtain ⟨d, hd, hkey⟩ := mem_map.mp hk
  have hservice : service' = service := by
    have h1 : d.service = service := by simpa using (mem_filter.mp hd).2
    exact (Prod.mk.inj hkey).1.symm.trans h1
  rw [← hservice]
  rfl

theorem updatesFor_ports (ports : List ServicePort) (service : JsString) :
    updatesFor (portUpdates ports) service =
      ((ports.filter fun p => p.service = service).map portText).map .port := by
  rw [updatesFor, portUpdates, filter_map, map_map, map_map]
  rfl

theorem updatesFor_mounts (filesMountpoint : Option JsString) (mounts : List ComposeMount)
    (service : JsString) :
    updatesFor (mountUpdates filesMountpoint mounts) service =
      (mounts.filter fun m => Orphans.truthy m.service = some service).map fun m =>
        m.update filesMountpoint service := by
  induction mounts with
  | nil => rfl
  | cons m mounts ih =>
    rw [updatesFor, mountUpdates] at ih ⊢
    rw [filterMap_cons]
    cases hs : Orphans.truthy m.service with
    | none => simpa [hs] using ih
    | some s =>
      by_cases hsame : s = service
      · subst hsame
        simpa [hs] using ih
      · simpa [hs, hsame] using ih

theorem updatesFor_resources (resources : List ServiceResources) (service : JsString) :
    updatesFor (resourceUpdates resources) service =
      (((resources.filter fun r => r.service = service).map resourceLimitFields).filter
        fun l => l.cpus.isSome || l.memory.isSome).map .limits := by
  induction resources with
  | nil => rfl
  | cons r resources ih =>
    rw [updatesFor, resourceUpdates] at ih ⊢
    rw [filterMap_cons]
    by_cases hnone : ((resourceLimitFields r).cpus.isNone && (resourceLimitFields r).memory.isNone) = true
    · by_cases hsame : r.service = service
      · have hno : ((resourceLimitFields r).cpus.isSome || (resourceLimitFields r).memory.isSome) =
            false := by
          simpa using hnone
        simpa [hnone, hsame, hno] using ih
      · simpa [hnone, hsame] using ih
    · have hyes : ((resourceLimitFields r).cpus.isSome || (resourceLimitFields r).memory.isSome) =
          true := by
        cases h1 : (resourceLimitFields r).cpus <;> cases h2 : (resourceLimitFields r).memory <;>
          simp_all
      by_cases hsame : r.service = service
      · simpa [hnone, hsame, hyes] using ih
      · simpa [hnone, hsame] using ih

theorem update_volume_or_nothing (m : ComposeMount) (service : JsString) :
    m.update filesMountpoint service = .nothing ∨
      ∃ v, m.update filesMountpoint service = .volume v := by
  rw [ComposeMount.update]
  split
  · exact .inr ⟨_, rfl⟩
  · exact .inr ⟨_, rfl⟩
  · split
    · exact .inr ⟨_, rfl⟩
    · exact .inl rfl

/-- **The entry the loops build.** -/
theorem entry_eq (hnames : ∀ d ∈ items.domains, isServiceName d.service = true)
    (composeId service : JsString) :
    stamp composeId blank
      (applyAll blank (updatesFor (updates slug labelsFor filesMountpoint items) service)) =
      expectedEntry slug labelsFor filesMountpoint items composeId service := by
  have hvolumes : ((items.mounts.filter fun m => Orphans.truthy m.service = some service).map
      fun m => m.update filesMountpoint service).filterMap Update.volume? =
      volumesOf filesMountpoint items service := by
    rw [filterMap_map]
    rfl
  have hroutes : (routesOf slug labelsFor items.domains service).flatten =
      routeLabels slug labelsFor items service := by
    rw [routesOf, routeLabels, flatMap_def]
  have hnoroute : routesOf slug labelsFor items.domains service = [] ↔
      (items.domains.filter fun d => d.service = service) = [] := by
    rw [routesOf, map_eq_nil_iff, Grouping.collect_eq_nil]
  have hmounts : ∀ u ∈ (items.mounts.filter fun m => Orphans.truthy m.service = some service).map
      (fun m => m.update filesMountpoint service), u = .nothing ∨ ∃ v, u = .volume v := by
    intro u hu
    obtain ⟨m, -, rfl⟩ := mem_map.mp hu
    exact update_volume_or_nothing m service
  rw [updates, updatesFor_append, updatesFor_append, updatesFor_append, updatesFor_routes hnames,
    updatesFor_ports, updatesFor_mounts, updatesFor_resources, applyAll_entry _ _ hmounts,
    hvolumes, expectedEntry, ← hroutes, stamp]
  simp only [hnoroute, OverrideService.mk.injEq, Option.some.injEq, true_and, blank, Option.or_none]
  refine ⟨?_, rfl⟩
  split
  · rename_i hnil
    rw [hnoroute.mpr hnil]
    rfl
  · rfl

/-- The services of the updates are those named by the items. -/
theorem mem_updates (hnames : ∀ d ∈ items.domains, isServiceName d.service = true)
    (service : JsString) :
    service ∈ (updates slug labelsFor filesMountpoint items).map Prod.fst ↔
      service ∈ namedServices items := by
  have hroutes : service ∈ (routeUpdates slug labelsFor items.domains).map Prod.fst ↔
      service ∈ items.domains.map ServiceDomain.service := by
    rw [routeUpdates_eq hnames, map_map, mem_map, mem_map]
    constructor
    · rintro ⟨⟨key, group⟩, he, rfl⟩
      obtain ⟨hk, -⟩ := Grouping.mem_collect.mp he
      obtain ⟨d, hd, rfl⟩ := mem_map.mp hk
      exact ⟨d, hd, rfl⟩
    · rintro ⟨d, hd, rfl⟩
      exact ⟨((d.service, d.port), _), Grouping.mem_collect.mpr ⟨mem_map_of_mem hd, rfl⟩, rfl⟩
  have hports : (portUpdates items.ports).map Prod.fst = items.ports.map ServicePort.service := by
    rw [portUpdates, map_map]
    rfl
  have hmounts : (mountUpdates filesMountpoint items.mounts).map Prod.fst =
      items.mounts.filterMap fun m => Orphans.truthy m.service := by
    rw [mountUpdates, map_filterMap]
    refine filterMap_congr fun m _ => ?_
    cases Orphans.truthy m.service <;> rfl
  have hresources : (resourceUpdates items.resources).map Prod.fst =
      (items.resources.filter fun r => (resourceLimitFields r).cpus.isSome ||
        (resourceLimitFields r).memory.isSome).map ServiceResources.service := by
    rw [resourceUpdates, map_filterMap, ← filterMap_eq_map, filterMap_filter]
    refine filterMap_congr fun r _ => ?_
    cases hc : (resourceLimitFields r).cpus <;> cases hm : (resourceLimitFields r).memory <;>
      simp [hc, hm]
  rw [updates, List.map_append, List.map_append, List.map_append, hports, hmounts, hresources,
    namedServices]
  simp only [mem_append, hroutes]

end Entry

/-! ## The override -/

section Main
variable {slug : Slug}
  {labelsFor : JsString → Nat → List (JsString × Bool) → List (JsString × JsString)}
  {filesMountpoint : Option JsString} {items : Items} {composeId : JsString}

theorem renderOverride_some {override : Override}
    (h : (renderOverride slug labelsFor filesMountpoint items composeId).1 = some override) :
    override.services = (run (updates slug labelsFor filesMountpoint items)).services.map
      (fun e => (e.1, stamp composeId
        (run (updates slug labelsFor filesMountpoint items)).proto e.2)) ∧
      override.volumes.getD [] = volumeDecls slug items.mounts := by
  rw [renderOverride] at h
  split at h
  · cases h
  · obtain rfl := Option.some.inj h
    refine ⟨rfl, ?_⟩
    dsimp only
    split
    · rename_i hnil
      exact hnil.symm
    · rfl

theorem renderOverride_isSome {service : JsString} (h : service ∈ namedServices items) :
    ∃ override, (renderOverride slug labelsFor filesMountpoint items composeId).1 =
      some override := by
  rw [renderOverride]
  split
  · rename_i hnil
    obtain ⟨h1, h2, h3, h4⟩ := hnil
    simp [namedServices, h1, h2, h3, h4] at h
  · exact ⟨_, rfl⟩

/-- **When the override is what the items say**: exactly when no service has a name every
object inherits, no two services of one port differ in `.`, `_` and `-` only, and no volume
mount spells `__proto__`. -/
theorem faithful_iff (slug : Slug)
    (labelsFor : JsString → Nat → List (JsString × Bool) → List (JsString × JsString))
    (filesMountpoint : Option JsString) (items : Items) (composeId : JsString)
    (hnames : ∀ d ∈ items.domains, isServiceName d.service = true) :
    Faithful slug labelsFor filesMountpoint items composeId ↔
      (∀ service ∈ namedServices items, service ∉ objectPrototype) ∧
      (∀ d ∈ items.domains, ∀ d' ∈ items.domains, d.port = d'.port →
        dashed d.service = dashed d'.service → d.service = d'.service) ∧
      (∀ v ∈ volumeMounts items.mounts, aliasFor v.1 v.2 ≠ js "__proto__") := by
  constructor
  · intro hf
    refine ⟨fun service hs hproto => ?_, fun d hd d' hd' hport hdashed => ?_, ?_⟩
    · obtain ⟨override, ho⟩ := @renderOverride_isSome slug labelsFor filesMountpoint items composeId
        service hs
      have hget := hf.services override ho service
      rw [if_pos hs, (renderOverride_some ho).1] at hget
      have hmem := @List.mem_map_of_mem _ _ _ _ Prod.fst (Assoc.mem_of_get hget)
      rw [List.map_map] at hmem
      have hnone := Assoc.get_eq_none_iff.mp
        (run_inherited (updates slug labelsFor filesMountpoint items) hproto)
      exact hnone hmem
    · exact (hf.routers d hd d' hd' (routerFor_inj_iff.mpr ⟨hdashed, hport⟩)).1
    · rintro ⟨service, name⟩ hv
      obtain ⟨m, hm, hs, hsource⟩ := mem_volumeMounts.mp hv
      have hnamed : service ∈ namedServices items := by
        have : service ∈ items.mounts.filterMap fun m => Orphans.truthy m.service :=
          List.mem_filterMap.mpr ⟨m, hm, hs⟩
        simp [namedServices, this]
      obtain ⟨override, ho⟩ := @renderOverride_isSome slug labelsFor filesMountpoint items composeId
        service hnamed
      have hget := hf.volumes override ho m hm service name hs hsource
      rw [(renderOverride_some ho).2] at hget
      exact (get_volumeDecls hv).mp hget
  · rintro ⟨hclean, hdashed, halias⟩
    have hus : ∀ u ∈ updates slug labelsFor filesMountpoint items, u.1 ∉ objectPrototype := by
      intro u hu
      exact hclean _ ((mem_updates hnames _).mp (List.mem_map_of_mem hu))
    obtain ⟨hout, hnodup, hget⟩ := run_clean hus
    have hproto : (run (updates slug labelsFor filesMountpoint items)).proto = blank := by
      simp [World.proto, hout]
    refine ⟨fun override ho => ?_, fun override ho service => ?_, fun d hd d' hd' heq => ?_,
      fun override ho m hm service name hs hsource => ?_, ?_⟩
    · rw [(renderOverride_some ho).1, List.map_map]
      exact hnodup
    · rw [(renderOverride_some ho).1, hproto, Assoc.get_map (stamp composeId blank), hget]
      simp only [mem_updates hnames]
      split
      · rw [Option.map_some, entry_eq hnames]
      · rfl
    · obtain ⟨hsame, hport⟩ := routerFor_inj_iff.mp heq
      exact ⟨hdashed d hd d' hd' hport hsame, hport⟩
    · rw [(renderOverride_some ho).2]
      have hv := mem_volumeMounts.mpr ⟨m, hm, hs, hsource⟩
      exact (get_volumeDecls hv).mpr (halias _ hv)
    · rw [renderOverride]
      split
      · rfl
      · exact hout

end Main

/-- A stack with two services, one domain and one port each. -/
def pairItems (first second : JsString) : Items where
  domains := [⟨first, 80, js "a.example.com", true⟩, ⟨second, 80, js "b.example.com", true⟩]
  ports := [⟨first, 80, 8080, none⟩, ⟨second, 81, 8081, some .loopback⟩]
  mounts := []
  resources := []

def shopSlug : Slug := ⟨js "shop", by decide⟩

/-- A service called `constructor` gets no entry; its ports and labels end up on the
built-in `Object`. -/
theorem override_misses_constructor :
    ¬ Faithful shopSlug (fun _ _ _ => []) none (pairItems (js "web") (js "constructor"))
      (js "id") := by
  intro h
  have hget : (renderOverride shopSlug (fun _ _ _ => []) none
      (pairItems (js "web") (js "constructor")) (js "id")).2 = [] := h.inside
  exact absurd hget (by decide)

theorem faithful_iff_sample :
    Faithful shopSlug (fun _ _ _ => []) none (pairItems (js "web") (js "api")) (js "id") :=
  (faithful_iff shopSlug (fun _ _ _ => []) none (pairItems (js "web") (js "api")) (js "id")
    (by decide)).mpr ⟨by decide, by decide, by decide⟩

end Aoox.Compose
