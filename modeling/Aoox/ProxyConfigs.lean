import Aoox.DomainCertificates
import Aoox.PreviousDaemons
import Aoox.ProxyConfigSchema
import Mathlib.Data.List.Pairwise

/-! # Files of a proxy and the domains that use them

The enabled files of a proxy are one configuration: a name may be declared once, and the
middlewares a domain names have to be declared somewhere.  Three checks keep it so.  A file
that is stored must not declare a name of another (`assertNoClash`), a file that changes must
not lose a middleware that a domain uses (`assertNotInUse`), and a domain may name what
exists (`assertMiddlewaresExist`).  Each is made before the write it allows, and a write
that does not reach the proxy is undone with what the request had loaded.

`step` is any interleaving of these requests, from one await to the next.  The configuration
is sound in every state of a run exactly when every write is made while what was checked is
still so, what was not checked is so as well, and every undoing finds the file as the request
left it (`configuration_iff`).
-/
open List Option
namespace Aoox.ProxyConfigs
open JsString
open PreviousDaemons (ServerId)
open Domains (Domain UpdateDomainDto Patch planUpdate patchRow passes)

section System
variable (load : JsString → Except YamlError Yaml)

/-! ## Files -/

/-- A content that passed the check, with its names. -/
structure Config where
  content : JsString
  parsed : ParsedConfig
  valid : validateDynamicConfig load content = .ok parsed

/-- `validated`: `none` is the 400 answer. -/
def Config.of (content : JsString) : Option (Config load) :=
  match h : validateDynamicConfig load content with
  | .ok parsed => some ⟨content, parsed, h⟩
  | .error _ => none

structure File where
  id : Nat
  name : JsString
  serverId : ServerId
  config : Config load
  enabled : Bool

variable {load}

/-- What the proxy reads. -/
def File.names (f : File load) (s : Section) : List JsString := declared load f.config.content s

def Config.refs (c : Config load) : List JsString := middlewareRefs c.parsed.middlewares

/-- The first name that two files have in common, and its section. -/
def clashOf (c d : ParsedConfig) : Option (Section × JsString) :=
  [Section.middlewares, .routers, .services].findSome? fun s =>
    ((c.names s).find? fun n => (d.names s).contains n).map fun n => (s, n)

/-- Names the first file that declares one of the names. -/
def assertNoClash (parsed : ParsedConfig) (others : List (File load)) : Except JsString Unit :=
  match others.findSome? fun f => (clashOf parsed f.config.parsed).map fun c => (f, c) with
  | none => .ok ()
  | some (f, s, n) =>
    .error (js "The " ++ s.key.dropLast ++ js " \"" ++ n ++ js "\" is already declared in the file \"" ++
      f.name ++ js "\"; names must be unique per proxy")

/-- The domains that use one of the middlewares, with those they use. -/
def usedBy (domains : List Domain) (refs : List JsString) : List (JsString × List JsString) :=
  (domains.filter fun d => d.middlewares.any fun m => refs.contains m).map fun d =>
    (d.host, d.middlewares.filter fun m => refs.contains m)

def assertNotInUse (dropped : List JsString) (domains : List Domain) : Except JsString Unit :=
  let used := usedBy domains dropped
  if used = [] then .ok ()
  else
    let one := used.length = 1
    .error ((if one then js "The domain" else js "These domains") ++ js " " ++
      join (used.map Prod.fst) (js ", ") ++ (if one then js " uses " else js " use ") ++
      (if dropped.length = 1 then js "a middleware" else js "middlewares") ++ js " from this file (" ++
      join (used.flatMap Prod.snd).eraseDups (js ", ") ++ js "); remove " ++
      (if one then js "it" else js "them") ++ js " from the domain first")

/-- Names the first middleware that does not exist. -/
def assertMiddlewaresExist (available refs : List JsString) : Except JsString Unit :=
  match refs.find? fun r => !available.contains r with
  | none => .ok ()
  | some missing =>
    .error (js "Middleware \"" ++ missing ++
      js "\" does not exist in an enabled config file on this server's proxy")

variable (load)

inductive Request where
  | create (serverId : ServerId) (name : JsString) (config : Config load) (enabled : Bool)
  | update (row : File load) (config : Config load) (enabled : Bool)
  | remove (row : File load)

variable {load}

namespace Request

/-- The row it writes; a new one gets an id when it is saved. -/
def id (fresh : Nat) : Request load → Nat
  | create _ _ _ _ => fresh
  | update row _ _ | remove row => row.id

/-- What it writes there. -/
def file (fresh : Nat) : Request load → Option (File load)
  | create serverId name config enabled => some ⟨fresh, name, serverId, config, enabled⟩
  | update row config enabled => some { row with config := config, enabled := enabled }
  | remove _ => none

/-- What it puts back when the proxy does not take it. -/
def before : Request load → Option (File load)
  | create _ _ _ _ => none
  | update row _ _ | remove row => some row

def serverId : Request load → ServerId
  | create serverId _ _ _ => serverId
  | update row _ _ | remove row => row.serverId

def config : Request load → Option (Config load)
  | create _ _ config _ | update _ config _ => some config
  | remove _ => none

def enabled : Request load → Bool
  | create _ _ _ enabled | update _ _ enabled => enabled
  | remove _ => false

/-- `exceptId`. -/
def except : Request load → Option Nat
  | create _ _ _ _ => none
  | update row _ _ | remove row => some row.id

/-- The middlewares that `assertNotInUse` looks for. -/
def dropped : Request load → List JsString
  | create _ _ _ _ => []
  | update row config enabled =>
    let keep := if enabled then config.refs else []
    row.config.refs.filter (· ∉ keep)
  | remove row => row.config.refs

def isRemove : Request load → Bool
  | remove _ => true
  | create _ _ _ _ | update _ _ _ => false

end Request

/-- What a request that has written does next. -/
inductive Stage where
  | syncing
  | reverting
  /-- `detail` reads what the answer says. -/
  | answering

variable (load)

/-- How far a request is: `seen` is what a check was made on, and `without` what the row would
hold if the request had not written it. -/
inductive Phase where
  | started
  | unused (seen : List Domain)
  | clear (seen : List Domain) (others : List (File load))
  | written (id : Nat) (without : Option (File load)) (stage : Stage)

structure Write where
  request : Request load
  phase : Phase load

/-- A request that updates a domain, with the row it has loaded and the middlewares that
existed when it looked. -/
inductive Updating where
  | loaded (domain : Domain) (dto : UpdateDomainDto)
  | checked (domain : Domain) (dto : UpdateDomainDto) (seen : List JsString)
  | writing (domain : Domain) (patch : Patch) (seen : List JsString)
  | syncing (domain : Domain)
  | restoring (domain : Domain)

structure State where
  files : List (File load)
  /-- The ids of files there have been. -/
  ids : List Nat
  domains : List Domain
  writes : Nat → Option (Write load)
  updates : Nat → Option Updating
  /-- For every request that wrote and ended in an error, the row it left and the row without
  it. -/
  failures : List (Option (File load) × Option (File load))

variable {load}

inductive Action where
  | create (n : Nat) (serverId : ServerId) (name content : JsString) (enabled : Bool)
  | update (n id : Nat) (content : Option JsString) (enabled : Option Bool)
  | remove (n id : Nat)
  | checkUse (n : Nat)
  | checkClash (n : Nat)
  /-- The server is unknown, or a restart of the proxy was not accepted. -/
  | abort (n : Nat)
  | save (n fresh : Nat)
  /-- The files were written to the proxy and it took them, or not. -/
  | synced (n : Nat) (ok : Bool)
  | revert (n : Nat) (ok : Bool)
  | answer (n : Nat) (ok : Bool)
  | domain (n id : Nat) (dto : UpdateDomainDto)
  | domainMiddlewares (n : Nat) (certificateFits : Bool)
  | domainRest (n : Nat) (proxyHasDns connectionExists : Bool)
  | domainWrite (n : Nat)
  | domainSynced (n : Nat) (ok : Bool)
  | domainRestore (n : Nat)

/-! ## Writes -/

def put (files : List (File load)) (id : Nat) (v : Option (File load)) : List (File load) :=
  v.toList ++ files.filter fun f => f.id ≠ id

def State.fileWith (s : State load) (id : Nat) : Option (File load) := s.files.find? fun f => f.id = id

/-- Names are unique on a proxy. -/
def nameFree (files : List (File load)) (id : Nat) (v : Option (File load)) : Bool :=
  v.all fun f => files.all fun g => g.id = id || !(g.name = f.name && g.serverId = f.serverId)

/-- Another request has written the row. -/
def Write.overwritten (id : Nat) (v : Option (File load)) (w : Write load) : Write load :=
  match w.phase with
  | .written id' without stage =>
    { w with phase := .written id' (if id' = id then v else without) stage }
  | .started | .unused _ | .clear _ _ => w

def State.put (s : State load) (n : Nat) (w : Option (Write load)) : State load :=
  { s with writes := Function.update s.writes n w }

def State.update (s : State load) (n : Nat) (u : Option Updating) : State load :=
  { s with updates := Function.update s.updates n u }

/-- The request `n` writes a row. -/
def State.store (s : State load) (n id : Nat) (v : Option (File load)) : State load :=
  { s with
    files := ProxyConfigs.put s.files id v
    writes := fun m => if m = n then s.writes m else (s.writes m).map (Write.overwritten id v) }

/-- The request `n` ends in an error. -/
def State.fail (s : State load) (n id : Nat) (without : Option (File load)) : State load :=
  { s.put n none with failures := (s.fileWith id, without) :: s.failures }

/-- The middlewares of the enabled files of a proxy. -/
def State.available (s : State load) (serverId : ServerId) : List JsString :=
  (s.files.filter fun f => f.enabled && f.serverId = serverId).flatMap fun f => f.config.refs

variable (lower : JsString → JsString) (proxyOf : Nat → ServerId)

def step (s : State load) : Action → Option (State load)
  | .create n serverId name content enabled =>
    if (s.writes n).isSome then none
    else
      match Config.of load content with
      | none => some s
      | some config =>
        if s.files.any fun f => f.name = name && f.serverId = serverId then some s
        -- no domain can use a file that is not there yet
        else some (s.put n (some ⟨.create serverId name config enabled, .unused []⟩))
  | .update n id content enabled =>
    if (s.writes n).isSome then none
    else
      match s.fileWith id with
      | none => some s
      | some row =>
        -- the content that is stored when none is given
        match Config.of load (content.getD row.config.content) with
        | none => some s
        | some config => some (s.put n (some ⟨.update row config (enabled.getD row.enabled), .started⟩))
  | .remove n id =>
    if (s.writes n).isSome then none
    else
      match s.fileWith id with
      | none => some s
      | some row => some (s.put n (some ⟨.remove row, .started⟩))
  | .checkUse n =>
    match s.writes n with
    | some ⟨r, .started⟩ =>
      let seen := s.domains.filter fun d => proxyOf d.id = r.serverId
      if passes (assertNotInUse r.dropped seen) then some (s.put n (some ⟨r, .unused seen⟩))
      else some (s.put n none)
    | _ => none
  | .checkClash n =>
    match s.writes n with
    | some ⟨r, .unused seen⟩ =>
      let others := s.files.filter fun f =>
        r.enabled && f.enabled && f.serverId = r.serverId && r.except ≠ some f.id
      if r.config.all fun c => passes (assertNoClash c.parsed others) then
        some (s.put n (some ⟨r, .clear seen others⟩))
      else some (s.put n none)
    | _ => none
  | .abort n =>
    match s.writes n with
    | some ⟨_, .written _ _ _⟩ | none => none
    | some _ => some (s.put n none)
  | .save n fresh =>
    match s.writes n with
    | some ⟨r, .clear _ _⟩ =>
      if r.except = none ∧ fresh ∈ s.ids then none
      -- the unique index on the name and the proxy
      else if nameFree s.files (r.id fresh) (r.file fresh) then
        some { (s.store n (r.id fresh) (r.file fresh)).put n
            (some ⟨r, .written (r.id fresh) (s.fileWith (r.id fresh)) .syncing⟩) with
          ids := r.id fresh :: s.ids }
      else some (s.put n none)
    | _ => none
  | .synced n ok =>
    match s.writes n with
    | some ⟨r, .written id without .syncing⟩ =>
      if !ok then some (s.put n (some ⟨r, .written id without .reverting⟩))
      else if r.isRemove then some (s.put n none)
      else some (s.put n (some ⟨r, .written id without .answering⟩))
    | _ => none
  | .revert n ok =>
    match s.writes n with
    | some ⟨r, .written id without .reverting⟩ =>
      -- what was there before is put back, from the copy of the request
      if ok && nameFree s.files id r.before then some ((s.store n id r.before).fail n id without)
      else some (s.fail n id without)
    | _ => none
  | .answer n ok =>
    match s.writes n with
    | some ⟨_, .written id without .answering⟩ =>
      -- the row is read once more for the answer
      if ok then some (s.put n none) else some (s.fail n id without)
    | _ => none
  | .domain n id dto =>
    if (s.updates n).isSome then none
    else
      match s.domains.find? fun d => d.id = id with
      | none => some s
      | some domain =>
        if dto.isEmpty then some s else some (s.update n (some (.loaded domain dto)))
  | .domainMiddlewares n certificateFits =>
    match s.updates n with
    | some (.loaded domain dto) =>
      let seen := s.available (proxyOf domain.id)
      if certificateFits && dto.wanted.all fun ms => passes (assertMiddlewaresExist seen ms) then
        some (s.update n (some (.checked domain dto seen)))
      else some (s.update n none)
    | _ => none
  | .domainRest n proxyHasDns connectionExists =>
    match s.updates n with
    | some (.checked domain dto seen) =>
      match planUpdate domain dto lower proxyHasDns connectionExists with
      | .ok (some patch) => some (s.update n (some (.writing domain patch seen)))
      | .ok none | .error _ => some (s.update n none)
    | _ => none
  | .domainWrite n =>
    match s.updates n with
    | some (.writing domain patch _) =>
      some { s.update n (patch.certificateId.map fun _ => .syncing domain) with
        domains := patchRow s.domains domain.id patch }
    | _ => none
  | .domainSynced n ok =>
    match s.updates n with
    | some (.syncing domain) =>
      if ok then some (s.update n none) else some (s.update n (some (.restoring domain)))
    | _ => none
  | .domainRestore n =>
    match s.updates n with
    | some (.restoring domain) =>
      some { s.update n none with domains := patchRow s.domains domain.id (Domains.restore domain) }
    | _ => none

attribute [local simp] step

/-! ## What holds of the configuration -/

/-- The names are distinct, what a domain names exists, and no request that failed has left a
trace. -/
structure Sound (s : State load) : Prop where
  distinct : ∀ serverId k, ((s.files.filter fun f => f.enabled && f.serverId = serverId).flatMap
    fun f => f.names k).Nodup
  defined : ∀ d ∈ s.domains, ∀ m ∈ d.middlewares, ∃ f ∈ s.files, f.enabled = true ∧
    f.serverId = proxyOf d.id ∧ m ∈ middlewareRefs (f.names .middlewares)
  restored : ∀ e ∈ s.failures, e.1 = e.2

/-- Two files have no name in common. -/
def Apart (f g : File load) : Prop := ∀ k, ∀ n ∈ f.names k, n ∉ g.names k

/-- A row that is written has no name in common with another enabled file of its proxy. -/
def Fits (files : List (File load)) (id : Nat) (v : Option (File load)) : Prop :=
  ∀ f, v = some f → f.enabled = true → ∀ g ∈ files, g.id ≠ id → g.enabled = true →
    g.serverId = f.serverId → Apart f g

/-- A write takes no middleware away that a domain uses. -/
def Spares (files : List (File load)) (domains : List Domain) (id : Nat)
    (v : Option (File load)) : Prop :=
  ∀ old ∈ files, old.id = id → old.enabled = true → ∀ d ∈ domains, proxyOf d.id = old.serverId →
    ∀ m ∈ d.middlewares, m ∈ old.config.refs →
      ∃ f, v = some f ∧ f.enabled = true ∧ f.serverId = old.serverId ∧ m ∈ f.config.refs

/-- Every write is made while what was checked before it is still so.

* `save`: a name of the file is in no file the check has not seen, and none of its transports is
  in any other; no domain the check has not seen uses a middleware that goes.
* `revert`: the row is put back as it would be without the request, and fits in as a new one
  would; if it cannot be put back, another request has written it since.
* `answer`: the same, if the answer cannot be given.
* `domainWrite`: the middlewares that existed at the check still do.
* `domainRestore`: the middlewares of the row that was loaded exist. -/
def StillSound (s : State load) : Action → Prop
  | .save n fresh => ∀ r seen others, s.writes n = some ⟨r, .clear seen others⟩ →
      ¬ (r.except = none ∧ fresh ∈ s.ids) → nameFree s.files (r.id fresh) (r.file fresh) = true →
        (∀ f, r.file fresh = some f → f.enabled = true → ∀ g ∈ s.files, g.id ≠ r.id fresh →
          g.enabled = true → g.serverId = f.serverId → ∀ k, (g ∈ others → k = .serversTransports) →
            ∀ name ∈ f.names k, name ∉ g.names k) ∧
        ∀ old ∈ s.files, old.id = r.id fresh → old.enabled = true → ∀ d ∈ s.domains,
          proxyOf d.id = old.serverId → ∀ m ∈ d.middlewares, m ∈ old.config.refs →
            ¬ (m ∈ r.dropped ∧ d ∈ seen) → ∃ f, r.file fresh = some f ∧ f.enabled = true ∧
              f.serverId = old.serverId ∧ m ∈ f.config.refs
  | .revert n ok => ∀ r id without, s.writes n = some ⟨r, .written id without .reverting⟩ →
      if (ok && nameFree s.files id r.before) = true then
        r.before = without ∧ Fits s.files id r.before ∧ Spares proxyOf s.files s.domains id r.before
      else s.fileWith id = without
  | .answer n ok => ok = false → ∀ r id without,
      s.writes n = some ⟨r, .written id without .answering⟩ → s.fileWith id = without
  | .domainWrite n => ∀ domain patch seen, s.updates n = some (.writing domain patch seen) →
      ∀ d ∈ s.domains, d.id = domain.id → ∀ ms, patch.middlewares = some ms →
        ∀ m ∈ ms, m ∈ seen → m ∈ s.available (proxyOf d.id)
  | .domainRestore n => ∀ domain, s.updates n = some (.restoring domain) →
      ∀ d ∈ s.domains, d.id = domain.id → ∀ m ∈ domain.middlewares, m ∈ s.available (proxyOf d.id)
  | _ => True

/-! ## The checks -/

variable {lower proxyOf} {s s' : State load}

variable {m : JsString}

theorem mem_refs {c : Config load} :
    m ∈ c.refs ↔ m ∈ middlewareRefs (declared load c.content .middlewares) := by
  have hperm := validate_ok c.valid .middlewares (by decide)
  exact (hperm.map _).mem_iff

theorem mem_available {serverId : ServerId} : m ∈ s.available serverId ↔
    ∃ f ∈ s.files, f.enabled = true ∧ f.serverId = serverId ∧ m ∈ f.config.refs := by
  simp [State.available, and_assoc]

variable {others : List (File load)} {f : File load}

theorem assertNoClash_ok {parsed : ParsedConfig} (h : passes (assertNoClash parsed others) = true)
    (hf : f ∈ others) {k : Section} {name : JsString}
    (hname : name ∈ parsed.names k) : name ∉ f.config.parsed.names k := by
  intro hother
  cases hfind : others.findSome? fun f => (clashOf parsed f.config.parsed).map fun c => (f, c) with
  | some e =>
    obtain ⟨g, s, n⟩ := e
    simp [assertNoClash, hfind, passes, Except.toOption] at h
  | none =>
    have hnone := List.findSome?_eq_none_iff.mp hfind f hf
    rw [map_eq_none_iff, clashOf, List.findSome?_eq_none_iff] at hnone
    have hk : k ∈ [Section.middlewares, .routers, .services] := by
      cases k with
      | serversTransports => cases hname
      | middlewares | routers | services => decide
    have hsection := hnone k hk
    rw [map_eq_none_iff, List.find?_eq_none] at hsection
    exact hsection name hname (by simpa using hother)

theorem assertNotInUse_ok {dropped : List JsString} {domains : List Domain}
    (h : passes (assertNotInUse dropped domains) = true) {d : Domain} (hd : d ∈ domains)
    (hm : m ∈ d.middlewares) : m ∉ dropped := by
  intro hdropped
  have hused : usedBy domains dropped ≠ [] := by
    refine ne_nil_of_mem (mem_map_of_mem (mem_filter.mpr ⟨hd, ?_⟩))
    exact any_eq_true.mpr ⟨m, hm, by simpa using hdropped⟩
  simp [assertNotInUse, hused, passes, Except.toOption] at h

theorem assertMiddlewaresExist_ok {available refs : List JsString}
    (h : passes (assertMiddlewaresExist available refs) = true) (hm : m ∈ refs) :
    m ∈ available := by
  cases hfind : refs.find? fun r => !available.contains r with
  | some missing =>
    simp only [assertMiddlewaresExist, hfind] at h
    cases h
  | none =>
    rw [List.find?_eq_none] at hfind
    simpa using hfind m hm

/-! ## Rows and domains -/

/-- The configuration without the trace of failures. -/
structure Clean (proxyOf : Nat → ServerId) (files : List (File load)) (domains : List Domain) : Prop where
  apart : ∀ f ∈ files, ∀ g ∈ files, f.id ≠ g.id → f.enabled = true → g.enabled = true →
    f.serverId = g.serverId → Apart f g
  defined : ∀ d ∈ domains, ∀ m ∈ d.middlewares, ∃ f ∈ files, f.enabled = true ∧
    f.serverId = proxyOf d.id ∧ m ∈ f.config.refs

variable {g : File load}

theorem Apart.symm (h : Apart f g) : Apart g f := fun k n hg hf => h k n hf hg

theorem Apart.refs (h : Apart f g) (hf : m ∈ f.config.refs) : m ∉ g.config.refs := by
  intro hg
  rw [mem_refs] at hf hg
  obtain ⟨n, hn, rfl⟩ := mem_map.mp hf
  exact h .middlewares n hn (mem_middlewareRefs.mp hg)

/-- Names are distinct all together exactly when any two files are apart. -/
theorem distinct_iff {files : List (File load)} (hunique : (files.map File.id).Nodup) :
    (∀ serverId k, ((files.filter fun f => f.enabled && f.serverId = serverId).flatMap
      fun f => f.names k).Nodup) ↔
    ∀ f ∈ files, ∀ g ∈ files, f.id ≠ g.id → f.enabled = true → g.enabled = true →
      f.serverId = g.serverId → Apart f g := by
  have hpairwise : files.Pairwise fun f g => f.id ≠ g.id := pairwise_map.mp hunique
  constructor
  · intro h f hf g hg hne hfe hge hserver k n hnf hng
    have hall := (nodup_flatMap.mp (h g.serverId k)).2
    have hmemf : f ∈ files.filter fun f => f.enabled && f.serverId = g.serverId :=
      mem_filter.mpr ⟨hf, by simp [hfe, hserver]⟩
    have hmemg : g ∈ files.filter fun f => f.enabled && f.serverId = g.serverId :=
      mem_filter.mpr ⟨hg, by simp [hge]⟩
    have : Std.Symm (Function.onFun List.Disjoint fun f : File load => f.names k) :=
      ⟨fun _ _ hd _ hb ha => hd ha hb⟩
    exact hall.forall hmemf hmemg (fun heq => hne (congrArg File.id heq)) hnf hng
  · intro h serverId k
    refine nodup_flatMap.mpr ⟨fun f _ => nodup_declared f.config.content k, ?_⟩
    refine (hpairwise.filter _).imp_of_mem ?_
    intro f g hf hg hne n hnf hng
    obtain ⟨hf, hfe⟩ := mem_filter.mp hf
    obtain ⟨hg, hge⟩ := mem_filter.mp hg
    simp only [Bool.and_eq_true, decide_eq_true_eq] at hfe hge
    exact h f hf g hg hne hfe.1 hge.1 (hfe.2.trans hge.2.symm) k n hnf hng

theorem sound_iff_clean (hunique : (s.files.map File.id).Nodup) :
    Sound proxyOf s ↔ Clean proxyOf s.files s.domains ∧ ∀ e ∈ s.failures, e.1 = e.2 := by
  constructor
  · intro h
    refine ⟨⟨(distinct_iff hunique).mp h.distinct, ?_⟩, h.restored⟩
    intro d hd m hm
    obtain ⟨f, hf, he, hserver, hrefs⟩ := h.defined d hd m hm
    exact ⟨f, hf, he, hserver, mem_refs.mpr hrefs⟩
  · rintro ⟨h, hrestored⟩
    refine ⟨(distinct_iff hunique).mpr h.apart, ?_, hrestored⟩
    intro d hd m hm
    obtain ⟨f, hf, he, hserver, hrefs⟩ := h.defined d hd m hm
    exact ⟨f, hf, he, hserver, mem_refs.mp hrefs⟩

variable {files : List (File load)} {domains : List Domain} {id : Nat} {v : Option (File load)}

theorem mem_put : f ∈ put files id v ↔ v = some f ∨ (f ∈ files ∧ f.id ≠ id) := by
  rw [put, mem_append, mem_toList, mem_filter, decide_eq_true_iff]

theorem nodup_put (h : (files.map File.id).Nodup) (hv : ∀ f, v = some f → f.id = id) :
    ((put files id v).map File.id).Nodup := by
  have hrest : ((files.filter fun f => f.id ≠ id).map File.id).Nodup :=
      h.sublist (filter_sublist.map _)
  cases v with
  | none => exact hrest
  | some f =>
    refine nodup_cons.mpr ⟨?_, hrest⟩
    intro hmem
    obtain ⟨g, hg, hid⟩ := mem_map.mp hmem
    obtain ⟨-, hne⟩ := mem_filter.mp hg
    exact (by simpa using hne : g.id ≠ id) (hid.trans (hv f rfl))

theorem find_put (hv : ∀ f, v = some f → f.id = id) :
    (put files id v).find? (fun f => f.id = id) = v := by
  cases v with
  | none =>
    rw [List.find?_eq_none]
    intro f hf
    have hne := (mem_put.mp hf).resolve_left (by simp)
    simpa using hne.2
  | some f => simp [put, hv f rfl]

/-- **A row is written.**  The configuration stays clean exactly when the row fits in and nothing
is taken away that a domain uses. -/
theorem clean_put_iff (h : Clean proxyOf files domains) (hv : ∀ f, v = some f → f.id = id) :
    Clean proxyOf (put files id v) domains ↔ Fits files id v ∧ Spares proxyOf files domains id v := by
  constructor
  · intro h'
    refine ⟨?_, ?_⟩
    · intro f hf hfe g hg hne hge hserver
      refine h'.apart f (mem_put.mpr (Or.inl hf)) g (mem_put.mpr (Or.inr ⟨hg, hne⟩)) ?_ hfe hge hserver.symm
      rw [hv f hf]
      exact hne.symm
    · intro old hold hid holde d hd hserver m hm hrefs
      obtain ⟨f, hf, hfe, hfserver, hfrefs⟩ := h'.defined d hd m hm
      rcases mem_put.mp hf with hnew | ⟨hf, hne⟩
      · exact ⟨f, hnew, hfe, hfserver.trans hserver, hfrefs⟩
      · -- another file would have declared the name as well
        have hapart := h.apart f hf old hold (by rw [hid]; exact hne) hfe holde (hfserver.trans hserver)
        exact absurd hrefs (hapart.refs hfrefs)
  · rintro ⟨hfits, hspares⟩
    constructor
    · intro f hf g hg hne hfe hge hserver
      rcases mem_put.mp hf with hfv | ⟨hf, hfid⟩
      · rcases mem_put.mp hg with hgv | ⟨hg, hgid⟩
        · exact absurd ((hv f hfv).trans (hv g hgv).symm) hne
        · exact hfits f hfv hfe g hg hgid hge hserver.symm
      · rcases mem_put.mp hg with hgv | ⟨hg, hgid⟩
        · exact (hfits g hgv hge f hf hfid hfe hserver).symm
        · exact h.apart f hf g hg hne hfe hge hserver
    · intro d hd m hm
      obtain ⟨f, hf, hfe, hserver, hrefs⟩ := h.defined d hd m hm
      by_cases hid : f.id = id
      · obtain ⟨g, hg, hge, hgserver, hgrefs⟩ := hspares f hf hid hfe d hd hserver.symm m hm hrefs
        exact ⟨g, mem_put.mpr (Or.inl hg), hge, hgserver.trans hserver, hgrefs⟩
      · exact ⟨f, mem_put.mpr (Or.inr ⟨hf, hid⟩), hfe, hserver, hrefs⟩

/-- **A domain is written.** -/
theorem clean_patch_iff (h : Clean proxyOf s.files s.domains) (patch : Patch) :
    Clean proxyOf s.files (patchRow s.domains id patch) ↔ ∀ d ∈ s.domains, d.id = id →
      ∀ ms, patch.middlewares = some ms → ∀ m ∈ ms, m ∈ s.available (proxyOf d.id) := by
  constructor
  · intro h' d hd hid ms hms m hm
    have hmem : patch.apply d ∈ patchRow s.domains id patch :=
      mem_map.mpr ⟨d, hd, if_pos hid⟩
    exact mem_available.mpr (h'.defined _ hmem m (by simpa [Patch.apply, hms] using hm))
  · intro hall
    refine ⟨h.apart, ?_⟩
    intro d' hd' m hm
    obtain ⟨d, hd, rfl⟩ := mem_map.mp hd'
    by_cases hid : d.id = id
    · rw [if_pos hid] at hm ⊢
      cases hms : patch.middlewares with
      | none =>
        simp only [Patch.apply, hms, getD_none] at hm
        exact h.defined d hd m hm
      | some ms =>
        simp only [Patch.apply, hms, getD_some] at hm
        exact mem_available.mp (hall d hd hid ms hms m hm)
    · rw [if_neg hid] at hm ⊢
      exact h.defined d hd m hm

/-! ## The invariant -/

/-- What the checks of a request have found. -/
def Write.Checked (ids : List Nat) (w : Write load) : Prop :=
  (∀ row, w.request.before = some row → row.id ∈ ids) ∧
    match w.phase with
    | .started => True
    | .unused seen => ∀ d ∈ seen, ∀ m ∈ d.middlewares, m ∉ w.request.dropped
    | .clear seen others => (∀ d ∈ seen, ∀ m ∈ d.middlewares, m ∉ w.request.dropped) ∧
        ∀ c, w.request.config = some c → ∀ g ∈ others, ∀ k, ∀ n ∈ c.parsed.names k,
          n ∉ g.config.parsed.names k
    | .written id _ _ => id ∈ ids ∧ ∀ row, w.request.before = some row → row.id = id

def Updating.Checked : Updating → Prop
  | .checked _ dto seen => ∀ ms, dto.wanted = some ms → ∀ m ∈ ms, m ∈ seen
  | .writing _ patch seen => ∀ ms, patch.middlewares = some ms → ∀ m ∈ ms, m ∈ seen
  | .loaded _ _ | .syncing _ | .restoring _ => True

structure Consistent (proxyOf : Nat → ServerId) (s : State load) : Prop where
  sound : Sound proxyOf s
  unique : (s.files.map File.id).Nodup
  ids : ∀ f ∈ s.files, f.id ∈ s.ids
  writes : ∀ n w, s.writes n = some w → w.Checked s.ids
  updates : ∀ n u, s.updates n = some u → u.Checked

variable {n : Nat}

theorem Consistent.clean (h : Consistent proxyOf s) : Clean proxyOf s.files s.domains :=
  ((sound_iff_clean h.unique).mp h.sound).1

theorem sound_congr (hfiles : s'.files = s.files) (hdomains : s'.domains = s.domains)
    (hfailures : s'.failures = s.failures) (h : Sound proxyOf s) : Sound proxyOf s' where
  distinct := by rw [hfiles]; exact h.distinct
  defined := by rw [hfiles, hdomains]; exact h.defined
  restored := by rw [hfailures]; exact h.restored

variable {w : Option (Write load)}

/-- A request goes on, or ends. -/
theorem Consistent.put (h : Consistent proxyOf s)
    (hw : ∀ w', w = some w' → w'.Checked s.ids) : Consistent proxyOf (s.put n w) where
  sound := sound_congr (s := s) rfl rfl rfl h.sound
  unique := h.unique
  ids := h.ids
  writes m w' hm := by
    rcases Runs.update_eq_some hm with ⟨-, hnew⟩ | ⟨-, hold⟩
    · exact hw w' hnew
    · exact h.writes m w' hold
  updates := h.updates

variable {u : Option Updating}

theorem Consistent.update (h : Consistent proxyOf s)
    (hu : ∀ u', u = some u' → u'.Checked) : Consistent proxyOf (s.update n u) where
  sound := sound_congr (s := s) rfl rfl rfl h.sound
  unique := h.unique
  ids := h.ids
  writes := h.writes
  updates m u' hm := by
    rcases Runs.update_eq_some hm with ⟨-, hnew⟩ | ⟨-, hold⟩
    · exact hu u' hnew
    · exact h.updates m u' hold

variable {w : Write load}

variable {ids : List Nat}

theorem Write.Checked.mono {ids' : List Nat} (h : w.Checked ids)
    (hids : ∀ i ∈ ids, i ∈ ids') : w.Checked ids' := by
  refine ⟨fun row hrow => hids _ (h.1 row hrow), ?_⟩
  have hphase := h.2
  cases hp : w.phase with
  | started => trivial
  | unused seen => simpa [hp] using hphase
  | clear seen others => simpa [hp] using hphase
  | written i without stage =>
    simp only [hp] at hphase
    exact ⟨hids _ hphase.1, hphase.2⟩

theorem Write.Checked.overwritten (h : w.Checked ids) : (w.overwritten id v).Checked ids := by
  obtain ⟨r, phase⟩ := w
  cases phase with
  | started | unused | clear | written => exact h

/-- What the other requests know when a row was written. -/
theorem Consistent.store_writes (h : Consistent proxyOf s) {m : Nat}
    (hm : (s.store n id v).writes m = some w) : w.Checked s.ids := by
  simp only [State.store] at hm
  split at hm
  · exact h.writes m w hm
  · obtain ⟨w₀, hw₀, rfl⟩ := map_eq_some_iff.mp hm
    exact (h.writes m w₀ hw₀).overwritten

variable {r : Request load}

variable {fresh : Nat}

theorem file_id (h : r.file fresh = some f) : f.id = r.id fresh ∧ r.config = some f.config := by
  cases r with
  | create | update =>
    cases h
    exact ⟨rfl, rfl⟩
  | remove => cases h

theorem find_id (h : s.fileWith id = some f) : f ∈ s.files ∧ f.id = id :=
  ⟨List.mem_of_find?_eq_some h, by simpa using List.find?_some h⟩

variable {seen : List Domain}

/-- **What a save was checked with is still so exactly when the row fits in.** -/
theorem save_iff (hchecked : (⟨r, .clear seen others⟩ : Write load).Checked s.ids) :
    ((∀ f, r.file fresh = some f → f.enabled = true → ∀ g ∈ s.files, g.id ≠ r.id fresh →
        g.enabled = true → g.serverId = f.serverId → ∀ k, (g ∈ others → k = .serversTransports) →
          ∀ name ∈ f.names k, name ∉ g.names k) ∧
      ∀ old ∈ s.files, old.id = r.id fresh → old.enabled = true → ∀ d ∈ s.domains,
        proxyOf d.id = old.serverId → ∀ m ∈ d.middlewares, m ∈ old.config.refs →
          ¬ (m ∈ r.dropped ∧ d ∈ seen) → ∃ f, r.file fresh = some f ∧ f.enabled = true ∧
            f.serverId = old.serverId ∧ m ∈ f.config.refs) ↔
    Fits s.files (r.id fresh) (r.file fresh) ∧
      Spares proxyOf s.files s.domains (r.id fresh) (r.file fresh) := by
  obtain ⟨-, huse, hclash⟩ := hchecked
  refine and_congr ⟨?_, ?_⟩ ⟨?_, ?_⟩
  · intro h f hf hfe g hg hne hge hserver k name hname
    by_cases hk : g ∈ others → k = .serversTransports
    · exact h f hf hfe g hg hne hge hserver k hk name hname
    · -- the check has looked at this section of this file
      obtain ⟨hseen, hk⟩ := Classical.not_imp.mp hk
      have hf' := (validate_ok f.config.valid k hk).mem_iff.mpr hname
      have hno := hclash f.config (file_id hf).2 g hseen k name hf'
      exact fun hg' => hno ((validate_ok g.config.valid k hk).mem_iff.mpr hg')
  · intro h f hf hfe g hg hne hge hserver k _ name hname
    exact h f hf hfe g hg hne hge hserver k name hname
  · intro h old hold hid holde d hd hserver m hm hrefs
    refine h old hold hid holde d hd hserver m hm hrefs ?_
    rintro ⟨hdropped, hseen⟩
    exact huse d hseen m hm hdropped
  · intro h old hold hid holde d hd hserver m hm hrefs _
    exact h old hold hid holde d hd hserver m hm hrefs

/-- **A row is saved.** -/
theorem sound_save_iff (h : Consistent proxyOf s) :
    Sound proxyOf { (s.store n (r.id fresh) (r.file fresh)).put n w with ids := ids } ↔
      Fits s.files (r.id fresh) (r.file fresh) ∧
        Spares proxyOf s.files s.domains (r.id fresh) (r.file fresh) := by
  have hv : ∀ f, r.file fresh = some f → f.id = r.id fresh := fun f hf => (file_id hf).1
  have hunique := nodup_put h.unique hv
  refine (sound_iff_clean hunique).trans ?_
  rw [← clean_put_iff h.clean hv]
  exact and_iff_left h.sound.restored

variable {without : Option (File load)}

/-- **A row is put back.** -/
theorem sound_revert_iff (h : Consistent proxyOf s) (hv : ∀ f, v = some f → f.id = id) :
    Sound proxyOf ((s.store n id v).fail n id without) ↔
      v = without ∧ Fits s.files id v ∧ Spares proxyOf s.files s.domains id v := by
  have hunique := nodup_put h.unique hv
  have hfound : (s.store n id v).fileWith id = v := find_put hv
  refine (sound_iff_clean hunique).trans ?_
  rw [← clean_put_iff h.clean hv]
  have hfailures : (∀ e ∈ ((s.store n id v).fail n id without).failures, e.1 = e.2) ↔ v = without := by
    simp only [State.fail, hfound, mem_cons, forall_eq_or_imp]
    exact and_iff_left h.sound.restored
  rw [hfailures]
  exact and_comm

/-- **A request fails without putting anything back.** -/
theorem sound_fail_iff (h : Consistent proxyOf s) :
    Sound proxyOf (s.fail n id without) ↔ s.fileWith id = without := by
  refine (sound_iff_clean (s := s.fail n id without) h.unique).trans ?_
  have hfailures : (∀ e ∈ (s.fail n id without).failures, e.1 = e.2) ↔ s.fileWith id = without := by
    simp only [State.fail, mem_cons, forall_eq_or_imp]
    exact and_iff_left h.sound.restored
  rw [hfailures]
  exact and_iff_right h.clean

/-- **A domain is patched.** -/
theorem sound_patch_iff (h : Consistent proxyOf s) (patch : Patch) :
    Sound proxyOf { s.update n u with domains := patchRow s.domains id patch } ↔
      ∀ d ∈ s.domains, d.id = id → ∀ ms, patch.middlewares = some ms → ∀ m ∈ ms,
        m ∈ s.available (proxyOf d.id) := by
  refine (sound_iff_clean (s := { s.update n u with domains := patchRow s.domains id patch }) h.unique).trans ?_
  rw [← clean_patch_iff h.clean patch]
  exact and_iff_left h.sound.restored

/-! ## Steps -/

theorem before_id {row : File load} (h : r.before = some row) (fresh : Nat) :
    row.id = r.id fresh := by
  cases r with
  | create => cases h
  | update | remove =>
    cases h
    rfl

theorem Consistent.save (h : Consistent proxyOf s) (hw : s.writes n = some ⟨r, .clear seen others⟩)
    (hfits : Fits s.files (r.id fresh) (r.file fresh))
    (hspares : Spares proxyOf s.files s.domains (r.id fresh) (r.file fresh))
    (without : Option (File load)) :
    Consistent proxyOf { (s.store n (r.id fresh) (r.file fresh)).put n
      (some ⟨r, .written (r.id fresh) without .syncing⟩) with ids := r.id fresh :: s.ids } where
  sound := (sound_save_iff h).mpr ⟨hfits, hspares⟩
  unique := nodup_put h.unique fun f hf => (file_id hf).1
  ids f hf := by
    rcases mem_put.mp hf with hnew | ⟨hold, -⟩
    · rw [(file_id hnew).1]
      exact mem_cons_self
    · exact mem_cons_of_mem _ (h.ids f hold)
  writes m w hm := by
    rcases Runs.update_eq_some hm with ⟨-, hnew⟩ | ⟨-, hold⟩
    · obtain rfl := some.inj hnew
      refine ⟨fun row hrow => mem_cons_of_mem _ ((h.writes n _ hw).1 row hrow), ?_⟩
      exact ⟨mem_cons_self, fun row hrow => before_id hrow fresh⟩
    · exact (h.store_writes hold).mono fun i hi => mem_cons_of_mem _ hi
  updates := h.updates

theorem Consistent.fail (h : Consistent proxyOf s)
    (hsound : s.fileWith id = without) : Consistent proxyOf (s.fail n id without) where
  sound := (sound_fail_iff h).mpr hsound
  unique := h.unique
  ids := h.ids
  writes m w hm := by
    rcases Runs.update_eq_some hm with ⟨-, hnew⟩ | ⟨-, hold⟩
    · cases hnew
    · exact h.writes m w hold
  updates := h.updates

theorem Consistent.revert (h : Consistent proxyOf s)
    (hw : s.writes n = some ⟨r, .written id without .reverting⟩)
    (hsound : Sound proxyOf ((s.store n id r.before).fail n id without)) :
    Consistent proxyOf ((s.store n id r.before).fail n id without) where
  sound := hsound
  unique := nodup_put h.unique (h.writes n _ hw).2.2
  ids f hf := by
    rcases mem_put.mp hf with hnew | ⟨hold, -⟩
    · exact (h.writes n _ hw).1 f hnew
    · exact h.ids f hold
  writes m w hm := by
    rcases Runs.update_eq_some hm with ⟨-, hnew⟩ | ⟨-, hold⟩
    · cases hnew
    · exact h.store_writes hold
  updates := h.updates

theorem Consistent.patch (h : Consistent proxyOf s) {patch : Patch}
    (hu : ∀ u', u = some u' → u'.Checked)
    (hsound : Sound proxyOf { s.update n u with domains := patchRow s.domains id patch }) :
    Consistent proxyOf { s.update n u with domains := patchRow s.domains id patch } where
  sound := hsound
  unique := h.unique
  ids := h.ids
  writes := h.writes
  updates := (h.update hu).updates

/-- **A check is passed.** -/
theorem Consistent.checkUse (h : Consistent proxyOf s)
    (hstep : step lower proxyOf s (.checkUse n) = some s') : Consistent proxyOf s' := by
  simp only [step] at hstep
  split at hstep
  · rename_i r hw
    split at hstep
    · rename_i hpasses
      cases hstep
      refine h.put ?_
      rintro w' ⟨⟩
      exact ⟨(h.writes n _ hw).1, fun d hd m hm => assertNotInUse_ok hpasses hd hm⟩
    · cases hstep
      exact h.put (fun w' hw' => by cases hw')
  · cases hstep

theorem Consistent.checkClash (h : Consistent proxyOf s)
    (hstep : step lower proxyOf s (.checkClash n) = some s') : Consistent proxyOf s' := by
  simp only [step] at hstep
  split at hstep
  · rename_i r seen hw
    split at hstep
    · rename_i hpasses
      cases hstep
      refine h.put ?_
      rintro w' ⟨⟩
      refine ⟨(h.writes n _ hw).1, (h.writes n _ hw).2, ?_⟩
      intro c hc g hg k name hname
      rw [hc] at hpasses
      exact assertNoClash_ok hpasses hg hname
    · cases hstep
      exact h.put (fun w' hw' => by cases hw')
  · cases hstep

theorem Consistent.domainMiddlewares (h : Consistent proxyOf s) {certificateFits : Bool}
    (hstep : step lower proxyOf s (.domainMiddlewares n certificateFits) = some s') :
    Consistent proxyOf s' := by
  simp only [step] at hstep
  split at hstep
  · split at hstep
    · rename_i hpasses
      cases hstep
      refine h.update ?_
      rintro u' ⟨⟩ ms hms m hm
      rw [hms] at hpasses
      exact assertMiddlewaresExist_ok (Bool.and_eq_true_iff.mp hpasses).2 hm
    · cases hstep
      exact h.update (fun u' hu' => by cases hu')
  · cases hstep

theorem Consistent.domainRest (h : Consistent proxyOf s) {proxyHasDns connectionExists : Bool}
    (hstep : step lower proxyOf s (.domainRest n proxyHasDns connectionExists) = some s') :
    Consistent proxyOf s' := by
  simp only [step] at hstep
  split at hstep
  · rename_i domain dto seen hu
    split at hstep
    · rename_i patch hplan
      cases hstep
      refine h.update ?_
      rintro u' ⟨⟩ ms hms m hm
      obtain ⟨rfl, -⟩ := Domains.planUpdate_some hplan
      refine h.updates n _ hu ms ?_ m hm
      simp only [Domains.plannedPatch] at hms
      split at hms
      · exact hms
      · cases hms
    all_goals
      cases hstep
      exact h.update (fun u' hu' => by cases hu')
  · cases hstep

variable {domain : Domain}

/-- A write of a domain takes what existed at the check, and what it writes was checked. -/
theorem domainWrite_iff {patch : Patch} {seen : List JsString}
    (hchecked : (Updating.writing domain patch seen).Checked) :
    (∀ d ∈ s.domains, d.id = domain.id → ∀ ms, patch.middlewares = some ms → ∀ m ∈ ms, m ∈ seen →
        m ∈ s.available (proxyOf d.id)) ↔
      ∀ d ∈ s.domains, d.id = domain.id → ∀ ms, patch.middlewares = some ms → ∀ m ∈ ms,
        m ∈ s.available (proxyOf d.id) := by
  constructor
  · intro h d hd hid ms hms m hm
    exact h d hd hid ms hms m hm (hchecked ms hms m hm)
  · intro h d hd hid ms hms m hm _
    exact h d hd hid ms hms m hm

theorem domainRestore_iff :
    (∀ d ∈ s.domains, d.id = domain.id → ∀ ms, (Domains.restore domain).middlewares = some ms →
        ∀ m ∈ ms, m ∈ s.available (proxyOf d.id)) ↔
      ∀ d ∈ s.domains, d.id = domain.id → ∀ m ∈ domain.middlewares, m ∈ s.available (proxyOf d.id) := by
  simp [Domains.restore]

variable {a : Action}

/-- **One step keeps the configuration sound.** -/
theorem Consistent.step (h : Consistent proxyOf s) (ha : StillSound proxyOf s a)
    (hstep : ProxyConfigs.step lower proxyOf s a = some s') : Consistent proxyOf s' := by
  have hends : ∀ n, Consistent proxyOf (s.put n none) := fun n => h.put fun w' hw' => by cases hw'
  have hdone : ∀ n, Consistent proxyOf (s.update n none) := fun n => h.update fun u' hu' => by cases hu'
  cases a with
  | checkUse n => exact h.checkUse hstep
  | checkClash n => exact h.checkClash hstep
  | domainMiddlewares n certificateFits => exact h.domainMiddlewares hstep
  | domainRest n proxyHasDns connectionExists => exact h.domainRest hstep
  | create n serverId name content enabled =>
    simp only [ProxyConfigs.step] at hstep
    split at hstep
    · cases hstep
    · split at hstep
      · cases hstep
        exact h
      · split at hstep
        · cases hstep
          exact h
        · cases hstep
          refine h.put ?_
          rintro w' ⟨⟩
          refine ⟨?_, ?_⟩
          · intro row hrow
            cases hrow
          · intro d hd
            cases hd
  | update n id content enabled =>
    simp only [ProxyConfigs.step] at hstep
    split at hstep
    · cases hstep
    · split at hstep
      · cases hstep
        exact h
      · rename_i row hrow
        split at hstep
        · cases hstep
          exact h
        · cases hstep
          refine h.put ?_
          rintro w' ⟨⟩
          refine ⟨?_, trivial⟩
          rintro row' ⟨⟩
          exact h.ids row (find_id hrow).1
  | remove n id =>
    simp only [ProxyConfigs.step] at hstep
    split at hstep
    · cases hstep
    · split at hstep
      · cases hstep
        exact h
      · rename_i row hrow
        cases hstep
        refine h.put ?_
        rintro w' ⟨⟩
        refine ⟨?_, trivial⟩
        rintro row' ⟨⟩
        exact h.ids row (find_id hrow).1
  | abort n =>
    simp only [ProxyConfigs.step] at hstep
    split at hstep
    · cases hstep
    · cases hstep
    · cases hstep
      exact hends n
  | save n fresh =>
    simp only [ProxyConfigs.step] at hstep
    split at hstep
    · rename_i r seen others hw
      split at hstep
      · cases hstep
      · rename_i hfresh
        split at hstep
        · rename_i hname
          cases hstep
          obtain ⟨hfits, hspares⟩ := (save_iff (h.writes n _ hw)).mp (ha r seen others hw hfresh hname)
          exact h.save hw hfits hspares _
        · cases hstep
          exact hends n
    · cases hstep
  | synced n ok =>
    simp only [ProxyConfigs.step] at hstep
    split at hstep
    · rename_i r id without hw
      have hnext : ∀ stage, Consistent proxyOf (s.put n (some ⟨r, .written id without stage⟩)) := by
        intro stage
        refine h.put ?_
        rintro w' ⟨⟩
        exact ⟨(h.writes n _ hw).1, (h.writes n _ hw).2⟩
      split at hstep
      · cases hstep
        exact hnext .reverting
      · split at hstep
        · cases hstep
          exact hends n
        · cases hstep
          exact hnext .answering
    · cases hstep
  | revert n ok =>
    simp only [ProxyConfigs.step] at hstep
    split at hstep
    · rename_i r id without hw
      have hsound := ha r id without hw
      split at hstep
      · rename_i hback
        cases hstep
        rw [if_pos hback] at hsound
        exact h.revert hw ((sound_revert_iff h (h.writes n _ hw).2.2).mpr hsound)
      · rename_i hback
        cases hstep
        rw [if_neg hback] at hsound
        exact h.fail hsound
    · cases hstep
  | answer n ok =>
    simp only [ProxyConfigs.step] at hstep
    split at hstep
    · rename_i r id without hw
      split at hstep
      · cases hstep
        exact hends n
      · rename_i hok
        cases hstep
        exact h.fail (ha (by simpa using hok) r id without hw)
    · cases hstep
  | domain n id dto =>
    simp only [ProxyConfigs.step] at hstep
    split at hstep
    · cases hstep
    · split at hstep
      · cases hstep
        exact h
      · split at hstep
        · cases hstep
          exact h
        · cases hstep
          refine h.update ?_
          rintro u' ⟨⟩
          trivial
  | domainWrite n =>
    simp only [ProxyConfigs.step] at hstep
    split at hstep
    · rename_i domain patch seen hu
      cases hstep
      refine h.patch ?_ ((sound_patch_iff h patch).mpr
        ((domainWrite_iff (h.updates n _ hu)).mp (ha domain patch seen hu)))
      intro u' hu'
      obtain ⟨c, -, rfl⟩ := map_eq_some_iff.mp hu'
      trivial
    · cases hstep
  | domainSynced n ok =>
    simp only [ProxyConfigs.step] at hstep
    split at hstep
    · split at hstep
      · cases hstep
        exact hdone n
      · cases hstep
        refine h.update ?_
        rintro u' ⟨⟩
        trivial
    · cases hstep
  | domainRestore n =>
    simp only [ProxyConfigs.step] at hstep
    split at hstep
    · rename_i domain hu
      cases hstep
      exact h.patch (fun u' hu' => by cases hu') ((sound_patch_iff h _).mpr
        (domainRestore_iff.mpr (ha domain hu)))
    · cases hstep

/-- **A write that comes too late breaks it.** -/
theorem Consistent.breaks (h : Consistent proxyOf s) (ha : ¬ StillSound proxyOf s a) :
    ∃ s', ProxyConfigs.step lower proxyOf s a = some s' ∧ ¬ Sound proxyOf s' := by
  cases a with
  | save n fresh =>
    simp only [StillSound, not_forall] at ha
    obtain ⟨r, seen, others, hw, hfresh, hname, hnot⟩ := ha
    refine ⟨{ (s.store n (r.id fresh) (r.file fresh)).put n
        (some ⟨r, .written (r.id fresh) (s.fileWith (r.id fresh)) .syncing⟩) with
      ids := r.id fresh :: s.ids }, ?_, fun hsound => hnot ?_⟩
    · simp only [ProxyConfigs.step, hw, if_neg hfresh, if_pos hname]
    · exact (save_iff (h.writes n _ hw)).mpr ((sound_save_iff h).mp hsound)
  | revert n ok =>
    simp only [StillSound, not_forall] at ha
    obtain ⟨r, id, without, hw, hnot⟩ := ha
    by_cases hback : (ok && nameFree s.files id r.before) = true
    · rw [if_pos hback] at hnot
      refine ⟨(s.store n id r.before).fail n id without, ?_, fun hsound => hnot ?_⟩
      · simp only [ProxyConfigs.step, hw, if_pos hback]
      · exact (sound_revert_iff h (h.writes n _ hw).2.2).mp hsound
    · rw [if_neg hback] at hnot
      refine ⟨s.fail n id without, ?_, fun hsound => hnot ?_⟩
      · simp only [ProxyConfigs.step, hw, if_neg hback]
      · exact (sound_fail_iff h).mp hsound
  | answer n ok =>
    simp only [StillSound, not_forall] at ha
    obtain ⟨rfl, r, id, without, hw, hnot⟩ := ha
    refine ⟨s.fail n id without, ?_, fun hsound => hnot ((sound_fail_iff h).mp hsound)⟩
    simp only [ProxyConfigs.step, hw, Bool.false_eq_true, if_false]
  | domainWrite n =>
    simp only [StillSound, not_forall] at ha
    obtain ⟨domain, patch, seen, hu, d, hd, hid, ms, hms, m, hm, hseen, hnot⟩ := ha
    refine ⟨{ s.update n (patch.certificateId.map fun _ => .syncing domain) with
      domains := patchRow s.domains domain.id patch }, ?_, fun hsound => ?_⟩
    · simp only [ProxyConfigs.step, hu]
    · exact hnot ((sound_patch_iff h patch).mp hsound d hd hid ms hms m hm)
  | domainRestore n =>
    simp only [StillSound, not_forall] at ha
    obtain ⟨domain, hu, d, hd, hid, m, hm, hnot⟩ := ha
    refine ⟨{ s.update n none with
      domains := patchRow s.domains domain.id (Domains.restore domain) }, ?_, fun hsound => ?_⟩
    · simp only [ProxyConfigs.step, hu]
    · exact hnot ((sound_patch_iff h _).mp hsound d hd hid _ rfl m hm)
  | create | update | remove | checkUse | checkClash | abort | synced | domain | domainMiddlewares
  | domainRest | domainSynced => exact absurd trivial ha

def initial (files : List (File load)) (domains : List Domain) : State load where
  files := files
  ids := files.map File.id
  domains := domains
  writes := fun _ => none
  updates := fun _ => none
  failures := []

/-- **The configuration is sound** in every state of a run from a sound one exactly when every
write is made while what was checked is still so. -/
theorem configuration_iff (files : List (File load)) (domains : List Domain)
    (hunique : (files.map File.id).Nodup) (hsound : Sound proxyOf (initial files domains))
    (as : List Action) :
    Runs.Throughout (step lower proxyOf) (Sound proxyOf) (initial files domains) as ↔
      Runs.Meets (step lower proxyOf) (StillSound proxyOf) (initial files domains) as := by
  have hinitial : Consistent proxyOf (initial files domains) :=
    ⟨hsound, hunique, fun f hf => List.mem_map_of_mem hf, fun n w h => by (cases h), fun n u h => by (cases h)⟩
  exact Runs.throughout_iff_meets (fun _ _ _ (h : Consistent proxyOf _) ha hstep => h.step ha hstep)
    (fun _ h => h.sound) (fun _ _ h ha => h.breaks ha) as _ hinitial

end System

/-! ## Two transports of one name -/

/-- A document with one transport, whatever the text. -/
def oneTransport (_ : JsString) : Except YamlError Yaml :=
  .ok (.map [(js "http", .map [(js "serversTransports", .map [(js "insecure", .map [])])])])

def nowhere : State oneTransport := initial [] []

theorem sound_nowhere : Sound (fun _ => none) nowhere where
  distinct serverId k := nodup_nil
  defined d hd := by cases hd
  restored e he := by cases he

/-- An enabled file on the host, from the request to its answer. -/
def created (n : Nat) (name : JsString) : List Action :=
  [.create n none name (js "http:") true, .checkClash n, .save n n, .synced n true, .answer n true]

theorem configuration_created : Runs.Throughout (step id fun _ => none) (Sound fun _ => none) nowhere
    (created 1 (js "a")) := by
  refine (configuration_iff [] [] List.nodup_nil sound_nowhere (created 1 (js "a"))).mpr ?_
  refine Runs.meets_cons rfl trivial ?_
  refine Runs.meets_cons rfl trivial ?_
  refine Runs.meets_cons rfl ?_ ?_
  · intro r seen others _ _ _
    exact ⟨fun f _ _ g hg => by (cases hg), fun old hold => by (cases hold)⟩
  · refine Runs.meets_cons rfl trivial ?_
    refine Runs.meets_cons rfl ?_ trivial
    intro hok
    cases hok

/-- Two files declare the same transport, and the check of the second does not see it. -/
theorem transport_twice :
    ¬ ∀ (as : List Action) (s : State oneTransport),
      Runs.exec (step id fun _ => none) nowhere as = some s → Sound (fun _ => none) s := by
  intro h
  have hsound := h (created 1 (js "a") ++ created 2 (js "b")) _ rfl
  have hnames := hsound.distinct none .serversTransports
  exact absurd hnames (by decide)

end Aoox.ProxyConfigs
