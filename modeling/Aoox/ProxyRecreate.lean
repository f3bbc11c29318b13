import Aoox.JsString
import Aoox.ScriptRuns

/-! # Recreating the proxy

`provisionOn` gets everything a proxy needs (image, network, volumes, the state of the swarm,
the token of the DNS connection), removes the container there is, and creates and starts
another.  `upgradeToCustomCerts` and `recreateWithAcme` call it for a proxy that is running, and
so do `enable` and `disable`, which write the DNS binding first and write it back when the
proxy could not be recreated.

Nobody creates the old container again.  When one of these ends in an error, a proxy with the
previous settings is running and the binding is the previous one exactly if the removal did not
take effect, or a new container with the same settings was started and only the answer was
lost, and if a binding that was written was written back (`unharmed_iff`).
-/
open List Option
namespace Aoox.ProxyRecreate
open JsString Scripts

/-! ## The container -/

/-- `ProxySettings`: ports and ACME for one proxy. -/
structure Settings where
  (httpPort httpsPort : Nat)
  acmeEmail : Option JsString
  acmeStaging : Bool

/-- The email, where it counts as one: the empty string does not. -/
def Settings.email (s : Settings) : Option JsString := s.acmeEmail.filter (· ≠ [])

/-- What `inspectContainer` says of the proxy's container. -/
structure Proxy where
  running : Bool
  (cmd env : List JsString)
  /-- The host ports bound to `80/tcp` and `443/tcp`. -/
  (httpPort httpsPort : Option Nat)
  binds : List JsString
  deriving DecidableEq

/-- What is the same for all proxies of the panel: its environment, and whether the proxy is
that of a server (`serverId`) or the panel's own. -/
structure Panel where
  localSettings : Settings
  readTimeoutSeconds : Option Nat
  hostDockerSocket : JsString
  remote : Bool

def PROXY_CERTS_DIR : JsString := js "/etc/traefik/dynamic"

def PROXY_CERTS_VOLUME : JsString := js "aoox_proxy_certs"

def PROXY_ACME_VOLUME : JsString := js "aoox_proxy_acme"

def certResolver : JsString := js "--certificatesresolvers.le.acme."

def dnsCertResolver : JsString := js "--certificatesresolvers.le-dns.acme."

def DNS_RESOLVER_PROVIDER_FLAG : JsString := dnsCertResolver ++ js "dnschallenge.provider=cloudflare"

def certsDirectoryFlag : JsString := js "--providers.file.directory=" ++ PROXY_CERTS_DIR

def stagingServer : JsString := js "caserver=https://acme-staging-v02.api.letsencrypt.org/directory"

def readTimeoutFlags (seconds : Nat) : List JsString :=
  [js "web", js "websecure"].map fun ep =>
    js "--entrypoints." ++ ep ++ js ".transport.respondingtimeouts.readtimeout=" ++
      js (toString seconds) ++ js "s"

/-- The command line of a new proxy. -/
def commandOf (h : Panel) (swarm : Bool) (s : Settings) (dns : Option JsString) : List JsString :=
  [js "--providers.docker=true", js "--providers.docker.exposedbydefault=false",
    js "--providers.docker.network=aoox"] ++
  (if swarm then
    [js "--providers.swarm=true", js "--providers.swarm.exposedbydefault=false",
      js "--providers.swarm.network=aoox-swarm", js "--providers.swarm.refreshSeconds=3"]
  else []) ++
  [certsDirectoryFlag, js "--providers.file.watch=true", js "--entrypoints.web.address=:80",
    js "--entrypoints.websecure.address=:443",
    js "--serverstransport.forwardingtimeouts.dialtimeout=1s", js "--log.level=INFO"] ++
  (h.readTimeoutSeconds.map readTimeoutFlags).getD [] ++
  (match s.email with
  | none => []
  | some email =>
    [certResolver ++ js "email=" ++ email, certResolver ++ js "storage=/letsencrypt/acme.json",
      certResolver ++ js "httpchallenge.entrypoint=web"] ++
    (if s.acmeStaging then [certResolver ++ stagingServer] else []) ++
    if dns.isSome then
      [dnsCertResolver ++ js "email=" ++ email,
        dnsCertResolver ++ js "storage=/letsencrypt/acme-dns.json", DNS_RESOLVER_PROVIDER_FLAG] ++
      if s.acmeStaging then [dnsCertResolver ++ stagingServer] else []
    else [])

/-- The body of `createContainer`; the container does not run yet. -/
def containerOf (h : Panel) (swarm : Bool) (s : Settings) (dns : Option JsString) : Proxy where
  running := false
  cmd := commandOf h swarm s dns
  env := match s.email, dns with
    | some _, some token => [js "CF_DNS_API_TOKEN=" ++ token]
    | _, _ => []
  httpPort := some s.httpPort
  httpsPort := some s.httpsPort
  binds := [h.hostDockerSocket ++ js ":/var/run/docker.sock:ro", PROXY_ACME_VOLUME ++ js ":/letsencrypt",
    PROXY_CERTS_VOLUME ++ js ":" ++ PROXY_CERTS_DIR]

namespace Proxy
variable (p : Proxy)

def supportsDnsChallenge : Bool := p.cmd.contains DNS_RESOLVER_PROVIDER_FLAG

def supportsCustomCerts : Bool :=
  p.cmd.contains certsDirectoryFlag && p.binds.contains (PROXY_CERTS_VOLUME ++ js ":" ++ PROXY_CERTS_DIR)

def acmeEmailOf : Option JsString :=
  (p.cmd.find? fun c => startsWith c (certResolver ++ js "email=")).map
    (List.drop (certResolver ++ js "email=").length)

def acmeStagingOf : Bool :=
  match p.cmd.find? fun c => startsWith c (certResolver ++ js "caserver=") with
  | some caserver => includes caserver (js "staging")
  | none => false

/-- `settingsOf`: the settings a container was created with, read back. -/
def settingsOf (fallback : Settings) : Settings where
  httpPort := (p.httpPort.filter (0 < ·)).getD fallback.httpPort
  httpsPort := (p.httpsPort.filter (0 < ·)).getD fallback.httpsPort
  acmeEmail := p.acmeEmailOf
  acmeStaging := p.acmeStagingOf

/-- Two proxies with the same ports, the same ACME account and the same DNS challenge. -/
def SameSettings (q : Proxy) : Prop :=
  p.httpPort = q.httpPort ∧ p.httpsPort = q.httpsPort ∧ p.acmeEmailOf = q.acmeEmailOf ∧
    p.acmeStagingOf = q.acmeStagingOf ∧ p.supportsDnsChallenge = q.supportsDnsChallenge ∧ p.env = q.env

instance (q : Proxy) : Decidable (p.SameSettings q) := inferInstanceAs (Decidable (_ ∧ _))

theorem SameSettings.refl : p.SameSettings p := ⟨rfl, rfl, rfl, rfl, rfl, rfl⟩

def start : Proxy := { p with running := true }

end Proxy

def needsAcmeRecreate (current : Option JsString) (wanted : JsString) : Bool :=
  wanted ≠ [] && current ≠ some wanted

/-! ## Docker and the database -/

/-- The host of one proxy, and what the panel's database has for it. -/
structure World where
  (image network : Bool)
  proxy : Option Proxy
  /-- The Docker engine manages a swarm. -/
  swarm : Bool
  /-- `proxySettingsOf` of the server's row. -/
  server : Option Settings
  /-- The tokens of the DNS connections. -/
  connections : Nat → Option JsString
  /-- The connection in the row of the DNS binding. -/
  binding : Option Nat
  /-- The hosts that use the DNS challenge, and the applications that do for previews. -/
  (hosts previews : List JsString)

inductive Call where
  | findServer
  | findConnection (id : Nat)
  | tokenOf (id : Nat)
  | getBinding
  | saveBinding (connectionId : Nat)
  | clearBinding
  | findHosts
  | findPreviews
  | inspectImage
  | pullImage
  | inspectNetwork
  | createNetwork
  | systemInfo
  | findContainer
  | inspectContainer
  | removeContainer
  | createContainer (body : Proxy)
  | startContainer
  /-- Any call that does not change what is modelled: the connection to the server, the
  volumes, the swarm network. -/
  | other
  deriving DecidableEq

def Call.Reply : Call → Type
  | findServer => Settings
  | tokenOf _ => JsString
  | getBinding => Option Nat
  | findHosts | findPreviews => List JsString
  | inspectImage | inspectNetwork | systemInfo => Bool
  | findContainer => Option Bool
  | inspectContainer => Option Proxy
  | _ => Unit

/-- What a call does.  Rows that are not there are refused, and so are the name of a container
that exists and the id of one that does not. -/
def effect : (c : Call) → World → Option (c.Reply × World)
  | .findServer, w => w.server.map fun s => (s, w)
  | .findConnection id, w => (w.connections id).map fun _ => ((), w)
  | .tokenOf id, w => (w.connections id).map fun token => (token, w)
  | .getBinding, w => some (w.binding, w)
  | .saveBinding connectionId, w => some ((), { w with binding := some connectionId })
  | .clearBinding, w => some ((), { w with binding := none })
  | .findHosts, w => some (w.hosts, w)
  | .findPreviews, w => some (w.previews, w)
  | .inspectImage, w => some (w.image, w)
  | .pullImage, w => some ((), { w with image := true })
  | .inspectNetwork, w => some (w.network, w)
  | .createNetwork, w => some ((), { w with network := true })
  | .systemInfo, w => some (w.swarm, w)
  | .findContainer, w => some (w.proxy.map Proxy.running, w)
  | .inspectContainer, w => some (w.proxy, w)
  | .removeContainer, w => if w.proxy.isSome then some ((), { w with proxy := none }) else none
  | .createContainer body, w => if w.proxy.isSome then none else some ((), { w with proxy := some body })
  | .startContainer, w => w.proxy.map fun p => ((), { w with proxy := some p.start })
  | .other, w => some ((), w)

abbrev calls : System World := ⟨Call, Call.Reply, effect⟩

abbrev Task := Script calls

def call (c : Call) : Task c.Reply := Script.await (S := calls) c

def findServer : Task Settings := call .findServer

def tokenOf (id : Nat) : Task JsString := call (.tokenOf id)

def getBinding : Task (Option Nat) := call .getBinding

def findHosts : Task (List JsString) := call .findHosts

def findPreviews : Task (List JsString) := call .findPreviews

def inspectImage : Task Bool := call .inspectImage

def inspectNetwork : Task Bool := call .inspectNetwork

def systemInfo : Task Bool := call .systemInfo

def findContainer : Task (Option Bool) := call .findContainer

def inspectContainer : Task (Option Proxy) := call .inspectContainer

/-- `if (b) await x`. -/
def whenever (b : Bool) (x : Task Unit) : Task Unit := if b then x else pure ()

/-! ## `provisionOn` -/

def ensureImage : Task Unit := do
  let present ← inspectImage
  whenever (!present) (call .pullImage)

def ensureNetwork : Task Unit := do
  let present ← inspectNetwork
  whenever (!present) (call .createNetwork)

def credentialsFor : Task (Option JsString) := do
  let row ← getBinding
  match row with
  | none => pure none
  | some connectionId => do
    let token ← tokenOf connectionId
    pure (some token)

/-- The old container goes and the new one comes. -/
def replace (swarm : Bool) (body : Proxy) : Task Unit := do
  let existing ← findContainer
  whenever existing.isSome (call .removeContainer)
  let _ ← call (.createContainer body)
  whenever swarm (call .other) -- `connectNetwork`
  call .startContainer

def provisionOn (h : Panel) (s : Settings) : Task Unit := do
  ensureImage
  ensureNetwork
  call .other -- two volumes
  call .other
  let swarm ← systemInfo
  let dns ← credentialsFor
  replace swarm (containerOf h swarm s dns)

def upgradeToCustomCerts (h : Panel) (fallback : Settings) : Task Unit := do
  let found ← findContainer
  if found ≠ some true then pure () else do
    let inspect ← inspectContainer
    match inspect with
    | none => pure ()
    | some p => if p.supportsCustomCerts then pure () else provisionOn h (p.settingsOf fallback)

def recreateWithAcme (h : Panel) (wanted : JsString) (fallback : Settings) : Task Unit := do
  let found ← findContainer
  if found ≠ some true then pure () else do
    let inspect ← inspectContainer
    match inspect with
    | none => pure ()
    | some p =>
      if needsAcmeRecreate p.acmeEmailOf wanted then
        provisionOn h { p.settingsOf fallback with acmeEmail := some wanted }
      else pure ()

/-! ## `enable` and `disable` -/

def settings (h : Panel) : Task Settings := if h.remote then findServer else pure h.localSettings

/-- `if (serverId) await this.servers.findOrFail(serverId)`. -/
def assertServer (h : Panel) : Task Unit :=
  if h.remote then do
    let _ ← findServer
    pure ()
  else pure ()

structure ProxyStatus where
  (installed running dnsChallenge : Bool)

def statusOn : Task ProxyStatus := do
  let found ← findContainer
  match found with
  | none => pure ⟨false, false, false⟩
  | some running => do
    let inspect ← inspectContainer
    pure ⟨true, running, inspect.elim false Proxy.supportsDnsChallenge⟩

structure ProxyDnsState where
  connectionId : Option Nat
  status : ProxyStatus
  acmeEmail : Option JsString
  needsRecreate : Bool
  usedBy : List JsString

def dependents : Task (List JsString) := do
  let hosts ← findHosts
  let previews ← findPreviews
  pure (hosts ++ previews.map fun a => a ++ js " (previews)")

def state (h : Panel) : Task ProxyDnsState := do
  assertServer h
  let settings ← settings h
  let binding ← getBinding
  whenever binding.isSome (call .other) -- the name of the connection
  call .other -- `forServer`
  let status ← statusOn
  let usedBy ← dependents
  pure {
    connectionId := binding
    status := status
    acmeEmail := settings.acmeEmail
    needsRecreate := status.running && (binding.isSome != status.dnsChallenge)
    usedBy := usedBy }

def assertRestartAccepted (h : Panel) (accepted : Bool) : Task Unit :=
  if accepted then pure () else do
    let s ← state h
    if s.status.running then .thrown else pure ()

def recreateIfRunning (h : Panel) : Task Unit := do
  let settings ← settings h
  call .other -- `forServer`
  let status ← statusOn
  whenever status.running (provisionOn h settings)

/-- `bindings.set`: the row is read, and saved as it is or new. -/
def setBinding (connectionId : Nat) : Task Unit := do
  let _ ← getBinding
  call (.saveBinding connectionId)

def writeBinding : Option Nat → Task Unit
  | some connectionId => setBinding connectionId
  | none => call .clearBinding

/-- `recreateIfRunning`; if it throws, the previous binding is written back. -/
def recreateOrRestore (h : Panel) (previous : Option Nat) : Task Unit :=
  Script.attempt (recreateIfRunning h) do
    writeBinding previous
    .thrown

/-- `previous?.connectionId === connectionId && (await this.state(serverId)).active`. -/
def alreadyActive (h : Panel) (previous : Option Nat) (connectionId : Nat) : Task Bool :=
  if previous = some connectionId then do
    let s ← state h
    pure s.status.dnsChallenge
  else pure false

def enable (h : Panel) (connectionId : Nat) (acceptProxyRestart : Bool) : Task ProxyDnsState := do
  assertServer h
  let _ ← call (.findConnection connectionId)
  let settings ← settings h
  if settings.email.isNone then .thrown else do
    let previous ← getBinding
    let active ← alreadyActive h previous connectionId
    if active then state h else do
      assertRestartAccepted h acceptProxyRestart
      writeBinding (some connectionId)
      recreateOrRestore h previous
      state h

def disable (h : Panel) (acceptProxyRestart : Bool) : Task ProxyDnsState := do
  assertServer h
  let usedBy ← dependents
  if usedBy ≠ [] then .thrown else do
    let previous ← getBinding
    if previous.isNone then state h else do
      assertRestartAccepted h acceptProxyRestart
      writeBinding none
      recreateOrRestore h previous
      state h

/-! ## What a change is to leave -/

/-- The changes of a proxy that recreate it. -/
inductive Operation where
  | upgradeToCustomCerts (fallback : Settings)
  | recreateWithAcme (wanted : JsString) (fallback : Settings)
  | enable (connectionId : Nat) (acceptProxyRestart : Bool)
  | disable (acceptProxyRestart : Bool)

namespace Operation

def run (h : Panel) : Operation → Task Unit
  | upgradeToCustomCerts fallback => ProxyRecreate.upgradeToCustomCerts h fallback
  | recreateWithAcme wanted fallback => ProxyRecreate.recreateWithAcme h wanted fallback
  | enable connectionId acceptProxyRestart => do
    let _ ← ProxyRecreate.enable h connectionId acceptProxyRestart
    pure ()
  | disable acceptProxyRestart => do
    let _ ← ProxyRecreate.disable h acceptProxyRestart
    pure ()

/-- The binding that is to be there afterwards. -/
def target (previous : Option Nat) : Operation → Option Nat
  | upgradeToCustomCerts _ | recreateWithAcme _ _ => previous
  | enable connectionId _ => some connectionId
  | disable _ => none

end Operation

/-- The settings in the database or the environment. -/
def settingsIn (h : Panel) (w : World) : Settings :=
  if h.remote then w.server.getD h.localSettings else h.localSettings

def Operation.wanted (h : Panel) (w : World) (p : Proxy) : Operation → Settings
  | upgradeToCustomCerts fallback => p.settingsOf fallback
  | recreateWithAcme wanted fallback => { p.settingsOf fallback with acmeEmail := some wanted }
  | enable _ _ | disable _ => settingsIn h w

def Operation.replacement (h : Panel) (w : World) (p : Proxy) (op : Operation) : Proxy :=
  (containerOf h w.swarm (op.wanted h w p) ((op.target w.binding).bind w.connections)).start

/-- A proxy with the previous settings is running, and the binding is as it was. -/
def Unharmed (w w' : World) : Prop :=
  w'.binding = w.binding ∧ ∃ p q, w.proxy = some p ∧ w'.proxy = some q ∧ q.running = true ∧
    p.SameSettings q

def bindingCall : Option Nat → Call
  | some connectionId => .saveBinding connectionId
  | none => .clearBinding

/-- Of the calls that took effect: the old container was not removed, or one with the same
settings was started; and the new binding was not written, or the previous one was written
back. -/
def Restored (h : Panel) (w : World) (p : Proxy) (op : Operation) (t : List Call) : Prop :=
  (Call.removeContainer ∈ t → Call.startContainer ∈ t ∧ p.SameSettings (op.replacement h w p)) ∧
    (bindingCall (op.target w.binding) ∈ t → bindingCall w.binding ∈ t)

instance (h : Panel) (w : World) (p : Proxy) (op : Operation) (t : List Call) :
    Decidable (Restored h w p op t) := inferInstanceAs (Decidable (_ ∧ _))

/-! ## Calls that change nothing here -/

def Call.changes : Call → Bool
  | saveBinding _ | clearBinding | removeContainer | createContainer _ | startContainer => true
  | _ => false

def World.core (w : World) : World := { w with image := true, network := true }

def World.withBinding (w : World) (b : Option Nat) : World := { w with binding := b }

/-- Nothing has changed that concerns a proxy or a binding. -/
def Aside (w : World) (t : List Call) (w' : World) (t' : List Call) : Prop :=
  w'.core = w.core ∧ ∀ c, c.changes = true → (c ∈ t' ↔ c ∈ t)

variable {h : Panel} {w w' w'' : World} {t t' t'' : List Call} {α β : Type}

variable {c : Call}

namespace Aside

theorem refl (w : World) (t : List Call) : Aside w t w t := ⟨rfl, fun _ _ => Iff.rfl⟩

theorem trans (h₁ : Aside w t w' t') (h₂ : Aside w' t' w'' t'') : Aside w t w'' t'' :=
  ⟨h₂.1.trans h₁.1, fun c hc => (h₂.2 c hc).trans (h₁.2 c hc)⟩

theorem proxy (ha : Aside w t w' t') : w'.proxy = w.proxy :=
  (congrArg World.proxy ha.1 : w'.core.proxy = w.core.proxy)

theorem binding (ha : Aside w t w' t') : w'.binding = w.binding :=
  (congrArg World.binding ha.1 : w'.core.binding = w.core.binding)

theorem swarm (ha : Aside w t w' t') : w'.swarm = w.swarm :=
  (congrArg World.swarm ha.1 : w'.core.swarm = w.core.swarm)

theorem connections (ha : Aside w t w' t') : w'.connections = w.connections :=
  (congrArg World.connections ha.1 : w'.core.connections = w.core.connections)

theorem mem_binding (ha : Aside w t w' t') (b : Option Nat) : bindingCall b ∈ t' ↔ bindingCall b ∈ t :=
  ha.2 _ (by cases b <;> rfl)

/-- A call that changes nothing is one more. -/
theorem call {r : c.Reply} (ha : Aside w t w' t') (hc : c.changes = false)
    (heffect : effect c w' = some (r, w'')) : Aside w t w'' (t' ++ [c]) := by
  refine ⟨?_, ?_⟩
  · refine Eq.trans ?_ ha.1
    cases c <;> first
        | (cases heffect; rfl)
        | (obtain ⟨_, -, heq⟩ := map_eq_some_iff.mp heffect; cases heq; rfl)
        | cases hc
  · intro d hd
    rw [mem_append, mem_singleton, ha.2 d hd]
    refine ⟨?_, Or.inl⟩
    rintro (hmem | rfl)
    · exact hmem
    · rw [hc] at hd
      cases hd

end Aside

theorem ensures_call {c : Call} {Q : Option c.Reply → World → List Call → Prop} (hthrown : Q none w t)
    (heffect : ∀ r w', effect c w = some (r, w') → Q (some r) w' (t ++ [c]) ∧ Q none w' (t ++ [c])) :
    (call c).Ensures Q w t :=
  Script.ensures_await (S := calls) hthrown heffect

/-- A program that changes nothing here. -/
abbrev Reads (x : Task α) : Prop := x.Only fun c => Call.changes c = false

variable {x : Task α}

/-- **Programs that change nothing here.** -/
theorem Reads.ensures (hx : Reads x) : x.Ensures (fun _ w' t' => Aside w t w' t') w t :=
  Script.Only.ensures hx (fun _ _ _ _ _ hc ha heffect => ha.call hc heffect) (Aside.refl w t)

theorem reads_call (hc : c.changes = false) : Reads (call c) := Script.only_await hc

theorem reads_whenever {b : Bool} {x : Task Unit} (hx : Reads x) : Reads (whenever b x) := by
  cases b with
  | true => exact hx
  | false => exact Script.only_pure

theorem reads_ensureImage : Reads ensureImage :=
  Script.Only.bind (reads_call rfl) fun _ => reads_whenever (reads_call rfl)

theorem reads_ensureNetwork : Reads ensureNetwork :=
  Script.Only.bind (reads_call rfl) fun _ => reads_whenever (reads_call rfl)

theorem reads_assertServer : Reads (assertServer h) := by
  unfold assertServer
  split
  · exact Script.Only.bind (reads_call rfl) fun _ => Script.only_pure
  · exact Script.only_pure

theorem reads_settings : Reads (settings h) := by
  by_cases hremote : h.remote = true
  · rw [settings, if_pos hremote]
    exact reads_call rfl
  · rw [settings, if_neg hremote]
    exact Script.only_pure

theorem reads_statusOn : Reads statusOn := by
  refine Script.Only.bind (reads_call rfl) ?_
  intro found
  cases found with
  | none => exact Script.only_pure
  | some running => exact Script.Only.bind (reads_call rfl) fun _ => Script.only_pure

theorem reads_dependents : Reads dependents :=
  Script.Only.bind (reads_call rfl) fun _ => Script.Only.bind (reads_call rfl) fun _ => Script.only_pure

theorem reads_state : Reads (state h) := by
  refine Script.Only.bind reads_assertServer fun _ => ?_
  refine Script.Only.bind reads_settings fun _ => ?_
  refine Script.Only.bind (reads_call rfl) fun _ => ?_
  refine Script.Only.bind (reads_whenever (reads_call rfl)) fun _ => ?_
  refine Script.Only.bind (reads_call rfl) fun _ => ?_
  refine Script.Only.bind reads_statusOn fun _ => ?_
  exact Script.Only.bind reads_dependents fun _ => Script.only_pure

variable {connectionId : Nat}

theorem reads_alreadyActive {previous : Option Nat} :
    Reads (alreadyActive h previous connectionId) := by
  unfold alreadyActive
  split
  · exact Script.Only.bind reads_state fun _ => Script.only_pure
  · exact Script.only_pure

theorem reads_assertRestartAccepted {accepted : Bool} : Reads (assertRestartAccepted h accepted) := by
  unfold assertRestartAccepted
  split
  · exact Script.only_pure
  · refine Script.Only.bind reads_state fun s => ?_
    split
    · exact Script.only_thrown
    · exact Script.only_pure

/-! ## What reads answer -/

/-- A program that changes nothing here, and answers `v` if it does. -/
def Answers (v : α) (w : World) (t : List Call) (r : Option α) (w' : World) (t' : List Call) : Prop :=
  Aside w t w' t' ∧ ∀ a, r = some a → a = v

/-- **A call that reads.** -/
theorem ensures_read {v : World → c.Reply} (hc : c.changes = false)
    (hv : ∀ r w', effect c w = some (r, w') → r = v w) :
    (call c).Ensures (Answers (v w) w t) w t := by
  refine ensures_call ⟨Aside.refl w t, fun a ha => by cases ha⟩ ?_
  intro r w' heffect
  have ha : Aside w t w' (t ++ [c]) := (Aside.refl w t).call hc heffect
  refine ⟨⟨ha, ?_⟩, ha, fun a ha => by cases ha⟩
  rintro a ⟨⟩
  exact hv r w' heffect

theorem findContainer_ensures :
    findContainer.Ensures (Answers (w.proxy.map Proxy.running) w t) w t :=
  ensures_read (c := .findContainer) (v := fun w => w.proxy.map Proxy.running) rfl fun _ _ heffect => by cases heffect; rfl

theorem inspectContainer_ensures : inspectContainer.Ensures (Answers w.proxy w t) w t :=
  ensures_read (c := .inspectContainer) (v := World.proxy) rfl fun _ _ heffect => by cases heffect; rfl

theorem getBinding_ensures : getBinding.Ensures (Answers w.binding w t) w t :=
  ensures_read (c := .getBinding) (v := World.binding) rfl fun _ _ heffect => by cases heffect; rfl

theorem systemInfo_ensures : systemInfo.Ensures (Answers w.swarm w t) w t :=
  ensures_read (c := .systemInfo) (v := World.swarm) rfl fun _ _ heffect => by cases heffect; rfl

variable {f : α → Task β} {Q : Option β → World → List Call → Prop}

/-- **Reads behind each other.** -/
theorem Answers.bind {v : α} (hx : x.Ensures (Answers v w t) w t)
    (hf : ∀ w' t', Aside w t w' t' → (f v).Ensures Q w' t')
    (hthrown : ∀ w' t', Aside w t w' t' → Q none w' t') : (x >>= f).Ensures Q w t := by
  refine hx.bind ?_ fun w' t' ha => hthrown w' t' ha.1
  rintro a w' t' ⟨ha, hv⟩
  obtain rfl := hv a rfl
  exact hf w' t' ha

/-- **A program that changes nothing here, in front of another.** -/
theorem Reads.bind (hx : Reads x) (hf : ∀ a w' t', Aside w t w' t' → (f a).Ensures Q w' t')
    (hthrown : ∀ w' t', Aside w t w' t' → Q none w' t') : (x >>= f).Ensures Q w t :=
  Script.Ensures.bind hx.ensures (fun a w' t' ha => hf a w' t' ha) hthrown

/-- The token of the bound connection. -/
def credentials (w : World) : Option JsString := w.binding.bind w.connections

theorem credentialsFor_ensures : credentialsFor.Ensures (Answers (credentials w) w t) w t := by
  refine Answers.bind getBinding_ensures ?_ fun w' t' ha => ⟨ha, fun a ha => by cases ha⟩
  intro w' t' ha
  cases hbinding : w.binding with
  | none =>
    refine ⟨ha, ?_⟩
    rintro a ⟨⟩
    rw [credentials, hbinding]
    rfl
  | some connectionId =>
    refine ⟨⟨ha, fun a ha => by cases ha⟩, ?_⟩
    intro token w'' heffect
    have ha' := ha.call (c := .tokenOf connectionId) rfl heffect
    refine ⟨⟨ha', ?_⟩, ha', fun a ha => by cases ha⟩
    rintro a ⟨⟩
    obtain ⟨a, htoken, heq⟩ := map_eq_some_iff.mp heffect
    cases heq
    rw [credentials, hbinding, bind_some, ← ha.connections, htoken]
    rfl

theorem settings_ensures : (settings h).Ensures (Answers (settingsIn h w) w t) w t := by
  by_cases hremote : h.remote = true
  · rw [settings, settingsIn, if_pos hremote, if_pos hremote]
    refine ensures_read (c := .findServer) (v := fun w => w.server.getD h.localSettings) rfl ?_
    intro r w' heffect
    obtain ⟨s, hserver, heq⟩ := map_eq_some_iff.mp heffect
    cases heq
    rw [hserver]
    rfl
  · rw [settings, settingsIn, if_neg hremote, if_neg hremote]
    refine ⟨Aside.refl w t, ?_⟩
    rintro a ⟨⟩
    rfl

theorem statusOn_ensures {p : Proxy} (hproxy : w.proxy = some p) :
    statusOn.Ensures (fun r w' t' => Aside w t w' t' ∧ ∀ a, r = some a → a.running = p.running) w t := by
  refine Answers.bind findContainer_ensures ?_ fun w' t' ha => ⟨ha, fun a ha => by cases ha⟩
  intro w' t' ha
  rw [hproxy]
  refine Reads.bind (reads_call rfl) ?_ fun w'' t'' ha' => ⟨ha.trans ha', fun a ha => by cases ha⟩
  intro inspect w'' t'' ha'
  refine ⟨ha.trans ha', ?_⟩
  rintro a ⟨⟩
  rfl

/-! ## The container is replaced -/

/-- Where the replacement of `p` by `q` has come to. -/
inductive Standing (p q : Proxy) (w : World) (t : List Call) : Prop where
  | kept (hremove : Call.removeContainer ∉ t) (hproxy : w.proxy = some p)
  | gone (hremove : Call.removeContainer ∈ t) (hstart : Call.startContainer ∉ t)
      (hproxy : ∀ r, w.proxy = some r → r.running = false)
  | replaced (hremove : Call.removeContainer ∈ t) (hstart : Call.startContainer ∈ t)
      (hproxy : w.proxy = some q)

/-- The binding and what it refers to are as they were. -/
def SameBinding (w : World) (t : List Call) (w' : World) (t' : List Call) : Prop :=
  w'.binding = w.binding ∧ ∀ b, bindingCall b ∈ t' ↔ bindingCall b ∈ t

/-- The old container has not been touched. -/
structure Untouched (p : Proxy) (w : World) (t : List Call) : Prop where
  proxy : w.proxy = some p
  remove : Call.removeContainer ∉ t
  start : Call.startContainer ∉ t

variable {p q : Proxy}

theorem Untouched.standing (hu : Untouched p w t) : Standing p q w t := .kept hu.remove hu.proxy

theorem Untouched.aside (hu : Untouched p w t) (ha : Aside w t w' t') : Untouched p w' t' :=
  ⟨ha.proxy.trans hu.proxy, fun hmem => hu.remove ((ha.2 _ rfl).mp hmem),
    fun hmem => hu.start ((ha.2 _ rfl).mp hmem)⟩

/-- Where the replacement has come to is a matter of the container and its calls. -/
theorem Standing.congr (hs : Standing p q w t) (hproxy : w'.proxy = w.proxy)
    (hremove : Call.removeContainer ∈ t' ↔ Call.removeContainer ∈ t)
    (hstart : Call.startContainer ∈ t' ↔ Call.startContainer ∈ t) : Standing p q w' t' := by
  cases hs with
  | kept hmem hp => exact .kept (fun h => hmem (hremove.mp h)) (hproxy.trans hp)
  | gone hmem hnot hp =>
    exact .gone (hremove.mpr hmem) (fun h => hnot (hstart.mp h)) fun r hr => hp r (hproxy.symm.trans hr)
  | replaced hmem hmem' hp => exact .replaced (hremove.mpr hmem) (hstart.mpr hmem') (hproxy.trans hp)

theorem Standing.aside (hs : Standing p q w t) (ha : Aside w t w' t') : Standing p q w' t' :=
  hs.congr ha.proxy (ha.2 _ rfl) (ha.2 _ rfl)

theorem Aside.sameBinding (ha : Aside w t w' t') : SameBinding w t w' t' := ⟨ha.binding, ha.mem_binding⟩

theorem SameBinding.trans (h₁ : SameBinding w t w' t') (h₂ : SameBinding w' t' w'' t'') :
    SameBinding w t w'' t'' :=
  ⟨h₂.1.trans h₁.1, fun b => (h₂.2 b).trans (h₁.2 b)⟩

theorem SameBinding.call (hs : SameBinding w t w' t') (hc : ∀ b, c ≠ bindingCall b)
    (hbinding : w''.binding = w'.binding) : SameBinding w t w'' (t' ++ [c]) := by
  refine ⟨hbinding.trans hs.1, ?_⟩
  intro b
  rw [mem_append, mem_singleton, hs.2 b]
  exact ⟨fun hmem => hmem.resolve_right fun heq => hc b heq.symm, Or.inl⟩

theorem ne_bindingCall (hsave : ∀ i, c ≠ .saveBinding i) (hclear : c ≠ .clearBinding)
    (b : Option Nat) : c ≠ bindingCall b := by
  cases b with
  | none => exact hclear
  | some i => exact hsave i

/-- There is no container. -/
structure Removed (w : World) (t : List Call) : Prop where
  proxy : w.proxy = none
  remove : Call.removeContainer ∈ t
  start : Call.startContainer ∉ t

theorem Removed.gone (hr : Removed w t) : Standing p q w t :=
    .gone hr.remove hr.start (by simp [hr.proxy])

/-- The new container is there and does not run yet. -/
structure Created (body : Proxy) (w : World) (t : List Call) : Prop where
  proxy : w.proxy = some body
  remove : Call.removeContainer ∈ t
  start : Call.startContainer ∉ t

variable {body : Proxy}

theorem Created.gone (hc : Created body w t) (hbody : body.running = false) : Standing p q w t := by
  refine .gone hc.remove hc.start ?_
  intro r hr
  obtain rfl : body = r := some.inj (hc.proxy.symm.trans hr)
  exact hbody

theorem Created.aside (hc : Created body w t) (ha : Aside w t w' t') : Created body w' t' :=
  ⟨ha.proxy.trans hc.proxy, (ha.2 _ rfl).mpr hc.remove, fun hmem => hc.start ((ha.2 _ rfl).mp hmem)⟩

theorem startContainer_ensures (hc : Created body w t) (hbody : body.running = false) :
    (call .startContainer).Ensures
      (fun _ w' t' => SameBinding w t w' t' ∧ Standing p body.start w' t') w t := by
  refine ensures_call ⟨(Aside.refl w t).sameBinding, hc.gone hbody⟩ ?_
  intro r w' heffect
  have hstarted : w' = { w with proxy := some body.start } := by
    obtain ⟨b, hb, heq⟩ := map_eq_some_iff.mp heffect
    obtain rfl : body = b := some.inj (hc.proxy.symm.trans hb)
    cases heq
    rfl
  subst hstarted
  have hend : SameBinding w t { w with proxy := some body.start } (t ++ [Call.startContainer]) ∧
      Standing p body.start { w with proxy := some body.start } (t ++ [Call.startContainer]) :=
    ⟨(Aside.refl w t).sameBinding.call (ne_bindingCall (by simp) (by simp)) rfl,
      .replaced (mem_append_left _ hc.remove) (by simp) rfl⟩
  exact ⟨hend, hend⟩

/-- The new container is created where there is none. -/
theorem createContainer_ensures (hr : Removed w t) (hbody : body.running = false) :
    (call (.createContainer body)).Ensures
      (fun r w' t' => SameBinding w t w' t' ∧ Standing p q w' t' ∧
        ∀ a, r = some a → Created body w' t') w t := by
  refine ensures_call ⟨(Aside.refl w t).sameBinding, hr.gone, fun a ha => by cases ha⟩ ?_
  intro r w' heffect
  have hcreated : w' = { w with proxy := some body } := by
    simp only [effect, hr.proxy, isSome_none, Bool.false_eq_true, if_false] at heffect
    cases heffect
    rfl
  subst hcreated
  have hc : Created body { w with proxy := some body } (t ++ [.createContainer body]) :=
    ⟨rfl, mem_append_left _ hr.remove, by simpa using hr.start⟩
  have hsame : SameBinding w t { w with proxy := some body } (t ++ [.createContainer body]) :=
    (Aside.refl w t).sameBinding.call (ne_bindingCall (by simp) (by simp)) rfl
  exact ⟨⟨hsame, hc.gone hbody, fun _ _ => hc⟩, hsame, hc.gone hbody, fun _ _ => hc⟩

theorem removeContainer_ensures (hu : Untouched p w t) : (call .removeContainer).Ensures
      (fun r w' t' => SameBinding w t w' t' ∧ Standing p q w' t' ∧
        ∀ a, r = some a → Removed w' t') w t := by
  refine ensures_call ⟨(Aside.refl w t).sameBinding, hu.standing, fun a ha => by cases ha⟩ ?_
  intro r w' heffect
  have hremoved : w' = { w with proxy := none } := by
    simp only [effect, hu.proxy, isSome_some, if_true] at heffect
    cases heffect
    rfl
  subst hremoved
  have hr : Removed { w with proxy := none } (t ++ [.removeContainer]) :=
    ⟨rfl, by simp, by simpa using hu.start⟩
  have hsame : SameBinding w t { w with proxy := none } (t ++ [.removeContainer]) :=
    (Aside.refl w t).sameBinding.call (ne_bindingCall (by simp) (by simp)) rfl
  exact ⟨⟨hsame, hr.gone, fun _ _ => hr⟩, hsame, hr.gone, fun _ _ => hr⟩

/-- **The old container goes and the new one comes.** -/
theorem replace_ensures {swarm : Bool} (hu : Untouched p w t) (hbody : body.running = false) :
    (replace swarm body).Ensures
      (fun _ w' t' => SameBinding w t w' t' ∧ Standing p body.start w' t') w t := by
  refine Answers.bind findContainer_ensures ?_ fun w₁ t₁ ha => ⟨ha.sameBinding, (hu.aside ha).standing⟩
  intro w₁ t₁ ha
  rw [hu.proxy]
  refine (removeContainer_ensures (q := body.start) (hu.aside ha)).bind ?_ ?_
  · rintro _ w₂ t₂ ⟨hsame₂, -, hremoved⟩
    have hr : Removed w₂ t₂ := hremoved _ rfl
    refine (createContainer_ensures (q := body.start) (p := p) hr hbody).bind ?_ ?_
    · rintro _ w₃ t₃ ⟨hsame₃, -, hcreated⟩
      have hc : Created body w₃ t₃ := hcreated _ rfl
      have hsame : SameBinding w t w₃ t₃ := (ha.sameBinding.trans hsame₂).trans hsame₃
      refine Reads.bind (reads_whenever (reads_call rfl)) ?_ ?_
      · intro _ w₄ t₄ ha₄
        refine (startContainer_ensures (p := p) (hc.aside ha₄) hbody).mono ?_
        rintro r w₅ t₅ ⟨hsame₅, hstanding⟩
        exact ⟨(hsame.trans ha₄.sameBinding).trans hsame₅, hstanding⟩
      · intro w₄ t₄ ha₄
        exact ⟨hsame.trans ha₄.sameBinding, (hc.aside ha₄).gone hbody⟩
    · rintro w₃ t₃ ⟨hsame₃, hstanding, -⟩
      exact ⟨(ha.sameBinding.trans hsame₂).trans hsame₃, hstanding⟩
  · rintro w₂ t₂ ⟨hsame₂, hstanding, -⟩
    exact ⟨ha.sameBinding.trans hsame₂, hstanding⟩

/-- The proxy `provisionOn` is to start. -/
def provisioned (h : Panel) (s : Settings) (w : World) : Proxy :=
  (containerOf h w.swarm s (credentials w)).start

variable {s : Settings}

/-- Up to its last step `provisionOn` leaves the proxy alone. -/
theorem provisionOn_rule {Q : Option Unit → World → List Call → Prop}
    (hkept : ∀ w' t', Aside w t w' t' → Q none w' t') (hreplace : ∀ w' t', Aside w t w' t' →
      (replace w.swarm (containerOf h w.swarm s (credentials w))).Ensures Q w' t') :
    (provisionOn h s).Ensures Q w t := by
  refine Reads.bind reads_ensureImage ?_ hkept
  intro _ w₁ t₁ ha₁
  refine Reads.bind reads_ensureNetwork ?_ fun _ _ ha => hkept _ _ (ha₁.trans ha)
  intro _ w₂ t₂ ha
  have ha₂ := ha₁.trans ha
  refine Reads.bind (reads_call rfl) ?_ fun _ _ ha => hkept _ _ (ha₂.trans ha)
  intro _ w₃ t₃ ha
  have ha₃ := ha₂.trans ha
  refine Reads.bind (reads_call rfl) ?_ fun _ _ ha => hkept _ _ (ha₃.trans ha)
  intro _ w₄ t₄ ha
  have ha₄ := ha₃.trans ha
  refine Answers.bind systemInfo_ensures ?_ fun _ _ ha => hkept _ _ (ha₄.trans ha)
  intro w₅ t₅ ha
  have ha₅ := ha₄.trans ha
  refine Answers.bind credentialsFor_ensures ?_ fun _ _ ha => hkept _ _ (ha₅.trans ha)
  intro w₆ t₆ ha
  have hsame : credentials w₅ = credentials w := by
    rw [credentials, credentials, ha₅.binding, ha₅.connections]
  rw [ha₄.swarm, hsame]
  exact hreplace w₆ t₆ (ha₅.trans ha)

/-- **`provisionOn`.** -/
theorem provisionOn_ensures (hu : Untouched p w t) : (provisionOn h s).Ensures
      (fun _ w' t' => SameBinding w t w' t' ∧ Standing p (provisioned h s w) w' t') w t := by
  refine provisionOn_rule (fun w' t' ha => ⟨ha.sameBinding, (hu.aside ha).standing⟩) ?_
  intro w₁ t₁ ha
  refine (replace_ensures (hu.aside ha) rfl).mono ?_
  rintro r w' t' ⟨hbinding, hstanding⟩
  exact ⟨ha.sameBinding.trans hbinding, hstanding⟩

/-! ## The binding is written -/

/-- The binding has been written. -/
def Written (target : Option Nat) (w : World) (t : List Call) (w' : World) (t' : List Call) : Prop :=
  w'.core = (w.withBinding target).core ∧
    ∀ c, c.changes = true → (c ∈ t' ↔ c ∈ t ∨ c = bindingCall target)

/-- The binding is the previous one, unless the new one was written and not the previous
one. -/
def Bound (previous target : Option Nat) (w : World) (t : List Call) : Prop :=
  w.binding = previous ↔ (bindingCall target ∈ t → bindingCall previous ∈ t)

variable {previous target : Option Nat}

theorem bindingCall_inj {b b' : Option Nat} (heq : bindingCall b = bindingCall b') : b = b' := by
  cases b <;> cases b' <;> cases heq <;> rfl

theorem changes_bindingCall (b : Option Nat) : (bindingCall b).changes = true := by cases b <;> rfl

namespace Written

theorem binding (hw : Written target w t w' t') : w'.binding = target :=
  (congrArg World.binding hw.1 : w'.core.binding = (w.withBinding target).core.binding)

theorem proxy (hw : Written target w t w' t') : w'.proxy = w.proxy :=
  (congrArg World.proxy hw.1 : w'.core.proxy = (w.withBinding target).core.proxy)

theorem mem_remove (hw : Written target w t w' t') :
    Call.removeContainer ∈ t' ↔ Call.removeContainer ∈ t :=
  (hw.2 _ rfl).trans (or_iff_left (ne_bindingCall (by simp) (by simp) _))

theorem mem_start (hw : Written target w t w' t') :
    Call.startContainer ∈ t' ↔ Call.startContainer ∈ t :=
  (hw.2 _ rfl).trans (or_iff_left (ne_bindingCall (by simp) (by simp) _))

theorem mem_binding (hw : Written target w t w' t') (b : Option Nat) :
    bindingCall b ∈ t' ↔ bindingCall b ∈ t ∨ b = target := by
  rw [hw.2 _ (changes_bindingCall b)]
  exact or_congr Iff.rfl ⟨bindingCall_inj, congrArg bindingCall⟩

theorem untouched (hw : Written target w t w' t') (hu : Untouched p w t) : Untouched p w' t' :=
  ⟨hw.proxy.trans hu.proxy, fun hmem => hu.remove (hw.mem_remove.mp hmem),
    fun hmem => hu.start (hw.mem_start.mp hmem)⟩

end Written

theorem Bound.congr (hb : Bound previous target w t) (hs : SameBinding w t w' t') :
    Bound previous target w' t' := by
  rw [Bound, hs.1, hs.2 target, hs.2 previous]
  exact hb

/-- **The call that writes a binding.** -/
theorem writeCall_ensures (target : Option Nat) (ha : Aside w t w' t') :
    (call (bindingCall target)).Ensures
      (fun r w'' t'' => Written target w t w'' t'' ∨ Aside w t w'' t'' ∧ r = none) w' t' := by
  refine ensures_call (Or.inr ⟨ha, rfl⟩) ?_
  intro r w'' heffect
  have hworld : w'' = w'.withBinding target := by
    cases target <;> cases heffect <;> rfl
  have hw : Written target w t w'' (t' ++ [bindingCall target]) := by
    refine ⟨?_, ?_⟩
    · rw [hworld]
      exact congrArg (World.withBinding · target) ha.1
    · intro c hc
      rw [mem_append, mem_singleton, ha.2 c hc]
  exact ⟨Or.inl hw, Or.inl hw⟩

theorem writeBinding_ensures : (writeBinding target).Ensures
      (fun r w' t' => Written target w t w' t' ∨ Aside w t w' t' ∧ r = none) w t := by
  cases target with
  | none => exact writeCall_ensures none (Aside.refl w t)
  | some connectionId =>
    refine Reads.bind (reads_call rfl) ?_ fun w₁ t₁ ha => Or.inr ⟨ha, rfl⟩
    intro _ w₁ t₁ ha
    exact writeCall_ensures (some connectionId) ha

theorem recreateIfRunning_ensures (hu : Untouched p w t) (hrunning : p.running = true) :
    (recreateIfRunning h).Ensures
      (fun _ w' t' => SameBinding w t w' t' ∧ Standing p (provisioned h (settingsIn h w) w) w' t') w t := by
  have hkept : ∀ {w' t'}, Aside w t w' t' →
      SameBinding w t w' t' ∧ Standing p (provisioned h (settingsIn h w) w) w' t' :=
    fun ha => ⟨ha.sameBinding, (hu.aside ha).standing⟩
  refine Answers.bind settings_ensures ?_ fun _ _ => hkept
  intro w₁ t₁ ha₁
  refine Reads.bind (reads_call rfl) ?_ fun _ _ ha => hkept (ha₁.trans ha)
  intro _ w₂ t₂ ha
  have ha₂ := ha₁.trans ha
  refine (statusOn_ensures (hu.aside ha₂).proxy).bind ?_ fun _ _ ha => hkept (ha₂.trans ha.1)
  rintro status w₃ t₃ ⟨ha, hstatus⟩
  have ha₃ := ha₂.trans ha
  rw [hstatus status rfl, hrunning]
  have hsame : provisioned h (settingsIn h w) w = provisioned h (settingsIn h w) w₃ := by
    rw [provisioned, provisioned, credentials, credentials, ha₃.swarm, ha₃.binding, ha₃.connections]
  rw [hsame]
  refine (provisionOn_ensures (hu.aside ha₃)).mono ?_
  rintro r w' t' ⟨hbinding, hstanding⟩
  exact ⟨ha₃.sameBinding.trans hbinding, hstanding⟩

/-- **The proxy is recreated or the binding written back.** -/
theorem recreateOrRestore_ensures (hu : Untouched p w t) (hrunning : p.running = true)
    (hbinding : w.binding = target) (hmem : ∀ b, bindingCall b ∈ t ↔ b = target) :
    (recreateOrRestore h previous).Ensures
      (fun _ w' t' => Standing p (provisioned h (settingsIn h w) w) w' t' ∧ Bound previous target w' t')
      w t := by
  have hbound : Bound previous target w t := by
    rw [Bound, hbinding, hmem, hmem]
    exact ⟨fun heq _ => heq.symm, fun himp => (himp rfl).symm⟩
  refine (recreateIfRunning_ensures hu hrunning).attempt ?_ ?_
  · rintro a w' t' ⟨hsame, hstanding⟩
    exact ⟨hstanding, hbound.congr hsame⟩
  · rintro w₁ t₁ ⟨hsame, hstanding⟩
    have hrestored : ∀ {w₂ t₂}, Written previous w₁ t₁ w₂ t₂ ∨ Aside w₁ t₁ w₂ t₂ →
        Standing p (provisioned h (settingsIn h w) w) w₂ t₂ ∧ Bound previous target w₂ t₂ := by
      rintro w₂ t₂ (hw | ha)
      · refine ⟨hstanding.congr hw.proxy hw.mem_remove hw.mem_start, ?_⟩
        exact iff_of_true hw.binding fun _ => (hw.mem_binding previous).mpr (Or.inr rfl)
      · exact ⟨hstanding.aside ha, (hbound.congr hsame).congr ha.sameBinding⟩
    refine writeBinding_ensures.bind ?_ ?_
    · rintro a w₂ t₂ hw
      exact hrestored (hw.imp_right And.left)
    · rintro w₂ t₂ hw
      exact hrestored (hw.imp_right And.left)

theorem provisioned_core (w : World) :
    provisioned h (settingsIn h w.core) w.core = provisioned h (settingsIn h w) w := rfl

theorem Aside.provisioned (ha : Aside w t w' t') (b : Option Nat) :
    provisioned h (settingsIn h w') (w'.withBinding b) =
      provisioned h (settingsIn h w) (w.withBinding b) := by
  have hcore : (w'.withBinding b).core = (w.withBinding b).core := congrArg (World.withBinding · b) ha.1
  exact (provisioned_core (w'.withBinding b)).symm.trans (hcore ▸ provisioned_core (w.withBinding b))

/-- **The change of a binding**: what `enable` and `disable` do when they have looked at
everything. -/
theorem changeBinding_ensures (hu : Untouched p w t) (hrunning : p.running = true)
    (hmem : ∀ b, bindingCall b ∉ t) :
    (writeBinding target >>= fun _ => recreateOrRestore h w.binding >>= fun _ => state h).Ensures
      (fun _ w' t' => Standing p (provisioned h (settingsIn h w) (w.withBinding target)) w' t' ∧
        Bound w.binding target w' t') w t := by
  have hkept : ∀ {w' t'}, Aside w t w' t' →
      Standing p (provisioned h (settingsIn h w) (w.withBinding target)) w' t' ∧
        Bound w.binding target w' t' := by
    intro w' t' ha
    refine ⟨(hu.aside ha).standing, iff_of_true ha.binding fun htarget => ?_⟩
    exact absurd ((ha.mem_binding target).mp htarget) (hmem target)
  have hwritten : ∀ {w' t'}, Written target w t w' t' →
      (provisioned h (settingsIn h w') w' = provisioned h (settingsIn h w) (w.withBinding target) ∧
        ∀ b, bindingCall b ∈ t' ↔ b = target) := by
    intro w' t' hw
    refine ⟨?_, fun b => (hw.mem_binding b).trans (or_iff_right (hmem b))⟩
    exact (provisioned_core w').symm.trans (hw.1 ▸ provisioned_core (w.withBinding target))
  have hbound : ∀ {w' t'}, Written target w t w' t' → Bound w.binding target w' t' := by
    intro w' t' hw
    rw [Bound, hw.binding, (hwritten hw).2, (hwritten hw).2]
    exact ⟨fun heq _ => heq.symm, fun himp => (himp rfl).symm⟩
  refine writeBinding_ensures.bind ?_ ?_
  · rintro _ w₁ t₁ (hw | ⟨-, habsurd⟩)
    · rw [← (hwritten hw).1]
      refine (recreateOrRestore_ensures (hw.untouched hu) hrunning hw.binding (hwritten hw).2).bind ?_
        fun _ _ => id
      rintro _ w₂ t₂ ⟨hstanding, hbound₂⟩
      refine (Reads.ensures reads_state).mono ?_
      intro r w₃ t₃ ha
      exact ⟨hstanding.aside ha, hbound₂.congr ha.sameBinding⟩
    · cases habsurd
  · rintro w₁ t₁ (hw | ⟨ha, -⟩)
    · exact ⟨(hw.untouched hu).standing, hbound hw⟩
    · exact hkept ha

/-! ## All changes -/

theorem untouched_nil (hproxy : w.proxy = some p) : Untouched p w [] :=
  ⟨hproxy, not_mem_nil, not_mem_nil⟩

theorem Aside.not_mem_binding (ha : Aside w [] w' t') (b : Option Nat) : bindingCall b ∉ t' :=
  fun hmem => not_mem_nil ((ha.mem_binding b).mp hmem)

section Operations
variable (hproxy : w.proxy = some p) (hrunning : p.running = true)
include hproxy hrunning

/-- What both changes that leave the binding alone begin with. -/
theorem inspected_ensures {f : Proxy → Task Unit} {q : Proxy}
    (hf : ∀ w' t', Aside w [] w' t' → (f p).Ensures
      (fun _ w'' t'' => SameBinding w' t' w'' t'' ∧ Standing p q w'' t'') w' t') :
    (findContainer >>= fun found => if found ≠ some true then (pure () : Task Unit) else
      inspectContainer >>= fun inspect => match inspect with
        | none => pure ()
        | some p => f p).Ensures
      (fun _ w' t' => SameBinding w [] w' t' ∧ Standing p q w' t') w [] := by
  have hu : Untouched p w [] := untouched_nil hproxy
  refine Answers.bind findContainer_ensures ?_ fun _ _ ha => ⟨ha.sameBinding, (hu.aside ha).standing⟩
  intro w₁ t₁ ha₁
  rw [hproxy, map_some, hrunning, if_neg (by simp)]
  refine Answers.bind inspectContainer_ensures ?_ ?_
  · intro w₂ t₂ ha
    rw [ha₁.proxy, hproxy]
    have ha₂ := ha₁.trans ha
    refine (hf w₂ t₂ ha₂).mono ?_
    rintro r w₃ t₃ ⟨hsame, hstanding⟩
    exact ⟨ha₂.sameBinding.trans hsame, hstanding⟩
  · intro w₂ t₂ ha
    have ha₂ := ha₁.trans ha
    exact ⟨ha₂.sameBinding, (hu.aside ha₂).standing⟩

omit hrunning in
theorem provisionUnless_ensures {c : Bool} {x : Task Unit}
    (hx : x = if c then pure () else provisionOn h s) (ha : Aside w [] w' t') :
    x.Ensures (fun _ w'' t'' => SameBinding w' t' w'' t'' ∧ Standing p (provisioned h s w) w'' t'')
      w' t' := by
  have hu : Untouched p w' t' := (untouched_nil hproxy).aside ha
  have hsame : provisioned h s w = provisioned h s w' := by
    rw [provisioned, provisioned, credentials, credentials, ha.swarm, ha.binding, ha.connections]
  subst hx
  cases c with
  | true => exact ⟨(Aside.refl w' t').sameBinding, hu.standing⟩
  | false =>
    rw [hsame]
    exact provisionOn_ensures hu

variable {accept : Bool}

theorem enable_ensures : (enable h connectionId accept).Ensures
      (fun _ w' t' => Standing p (provisioned h (settingsIn h w) (w.withBinding (some connectionId))) w' t' ∧
        Bound w.binding (some connectionId) w' t') w [] := by
  have hu : Untouched p w [] := untouched_nil hproxy
  have hkept : ∀ {w' t'}, Aside w [] w' t' →
      Standing p (provisioned h (settingsIn h w) (w.withBinding (some connectionId))) w' t' ∧
        Bound w.binding (some connectionId) w' t' := by
    intro w' t' ha
    refine ⟨(hu.aside ha).standing, iff_of_true ha.binding fun hmem => ?_⟩
    exact absurd hmem (ha.not_mem_binding _)
  refine Reads.bind reads_assertServer ?_ fun _ _ => hkept
  intro _ w₁ t₁ ha₁
  refine Reads.bind (reads_call rfl) ?_ fun _ _ ha => hkept (ha₁.trans ha)
  intro _ w₂ t₂ ha
  have ha₂ := ha₁.trans ha
  refine Reads.bind reads_settings ?_ fun _ _ ha => hkept (ha₂.trans ha)
  intro settings w₃ t₃ ha
  have ha₃ := ha₂.trans ha
  split
  · exact hkept ha₃
  refine Answers.bind getBinding_ensures ?_ fun _ _ ha => hkept (ha₃.trans ha)
  intro w₄ t₄ ha
  have ha₄ := ha₃.trans ha
  refine Reads.bind reads_alreadyActive ?_ fun _ _ ha => hkept (ha₄.trans ha)
  intro active w₅ t₅ ha
  have ha₅ := ha₄.trans ha
  split
  · exact (Reads.ensures reads_state).mono fun _ _ _ ha => hkept (ha₅.trans ha)
  refine Reads.bind reads_assertRestartAccepted ?_ fun _ _ ha => hkept (ha₅.trans ha)
  intro _ w₆ t₆ ha
  have ha₆ := ha₅.trans ha
  have hsame : provisioned h (settingsIn h w) (w.withBinding (some connectionId)) =
      provisioned h (settingsIn h w₆) (w₆.withBinding (some connectionId)) :=
    (ha₆.provisioned _).symm
  rw [hsame, ha₃.binding, ← ha₆.binding]
  exact changeBinding_ensures (hu.aside ha₆) hrunning ha₆.not_mem_binding

theorem disable_ensures : (disable h accept).Ensures
      (fun _ w' t' => Standing p (provisioned h (settingsIn h w) (w.withBinding none)) w' t' ∧
        Bound w.binding none w' t') w [] := by
  have hu : Untouched p w [] := untouched_nil hproxy
  have hkept : ∀ {w' t'}, Aside w [] w' t' →
      Standing p (provisioned h (settingsIn h w) (w.withBinding none)) w' t' ∧
        Bound w.binding none w' t' := by
    intro w' t' ha
    refine ⟨(hu.aside ha).standing, iff_of_true ha.binding fun hmem => ?_⟩
    exact absurd hmem (ha.not_mem_binding _)
  refine Reads.bind reads_assertServer ?_ fun _ _ => hkept
  intro _ w₁ t₁ ha₁
  refine Reads.bind reads_dependents ?_ fun _ _ ha => hkept (ha₁.trans ha)
  intro usedBy w₂ t₂ ha
  have ha₂ := ha₁.trans ha
  split
  · exact hkept ha₂
  refine Answers.bind getBinding_ensures ?_ fun _ _ ha => hkept (ha₂.trans ha)
  intro w₃ t₃ ha
  have ha₃ := ha₂.trans ha
  split
  · exact (Reads.ensures reads_state).mono fun _ _ _ ha => hkept (ha₃.trans ha)
  refine Reads.bind reads_assertRestartAccepted ?_ fun _ _ ha => hkept (ha₃.trans ha)
  intro _ w₄ t₄ ha
  have ha₄ := ha₃.trans ha
  rw [← ha₄.provisioned, ha₂.binding, ← ha₄.binding]
  exact changeBinding_ensures (hu.aside ha₄) hrunning ha₄.not_mem_binding

/-- **Every change**, whatever fails. -/
theorem operation_ensures (op : Operation) : (op.run h).Ensures
      (fun _ w' t' => Standing p (op.replacement h w p) w' t' ∧
        Bound w.binding (op.target w.binding) w' t') w [] := by
  have hleft : ∀ {w' t'}, SameBinding w [] w' t' → Bound w.binding w.binding w' t' :=
    fun hsame => iff_of_true hsame.1 id
  cases op with
  | upgradeToCustomCerts fallback =>
    refine (inspected_ensures hproxy hrunning fun w' t' ha => ?_).mono
      fun _ _ _ hend => ⟨hend.2, hleft hend.1⟩
    exact provisionUnless_ensures (c := p.supportsCustomCerts) hproxy rfl ha
  | recreateWithAcme wanted fallback =>
    refine (inspected_ensures hproxy hrunning fun w' t' ha => ?_).mono
      fun _ _ _ hend => ⟨hend.2, hleft hend.1⟩
    refine provisionUnless_ensures (c := !needsAcmeRecreate p.acmeEmailOf wanted) hproxy ?_ ha
    cases needsAcmeRecreate p.acmeEmailOf wanted <;> rfl
  | enable connectionId accept =>
    exact (enable_ensures hproxy hrunning).bind (fun _ _ _ hend => hend) fun _ _ => id
  | disable accept =>
    exact (disable_ensures hproxy hrunning).bind (fun _ _ _ hend => hend) fun _ _ => id

end Operations

theorem Standing.running_iff (hs : Standing p q w t) (hp : p.running = true) (hq : q.running = true) :
    (∃ r, w.proxy = some r ∧ r.running = true ∧ p.SameSettings r) ↔
      (Call.removeContainer ∈ t → Call.startContainer ∈ t ∧ p.SameSettings q) := by
  cases hs with
  | kept hremove hproxy =>
    exact iff_of_true ⟨p, hproxy, hp, .refl p⟩ fun hmem => absurd hmem hremove
  | gone hremove hstart hproxy =>
    refine iff_of_false ?_ fun hmem => hstart (hmem hremove).1
    rintro ⟨r, hr, hrunning, -⟩
    rw [hproxy r hr] at hrunning
    cases hrunning
  | replaced hremove hstart hproxy =>
    constructor
    · rintro ⟨r, hr, -, hsame⟩ -
      obtain rfl : q = r := some.inj (hproxy.symm.trans hr)
      exact ⟨hstart, hsame⟩
    · intro hsame
      exact ⟨q, hproxy, hq, (hsame hremove).2⟩

/-- **However a change ends**, and so after every error: a proxy with the previous settings is
running and the binding is as it was exactly if of the calls that took effect the harmful ones
have been made good. -/
theorem unharmed_iff (h : Panel) (op : Operation) (w : World) (p : Proxy) (os : List Outcome)
    (hproxy : w.proxy = some p) (hrunning : p.running = true) :
    Unharmed w ((op.run h).run os w []).2.1 ↔ Restored h w p op ((op.run h).run os w []).2.2 := by
  obtain ⟨hstanding, hbound⟩ := Script.ensures_run (operation_ensures (h := h) hproxy hrunning op) os
  have hproxyKept := hstanding.running_iff hrunning rfl
  constructor
  · rintro ⟨hbinding, p', r, hp', hr, hrun, hsame⟩
    obtain rfl : p = p' := Option.some.inj (hproxy.symm.trans hp')
    exact ⟨hproxyKept.mp ⟨r, hr, hrun, hsame⟩, hbound.mp hbinding⟩
  · rintro ⟨hremove, hwrite⟩
    obtain ⟨r, hr, hrun, hsame⟩ := hproxyKept.mpr hremove
    exact ⟨hbound.mpr hwrite, p, r, hproxy, hr, hrun, hsame⟩

/-! ## A container that cannot be created -/

/-- The panel's own proxy, without custom certificates and without the DNS challenge. -/
def plain : Panel where
  localSettings := ⟨80, 443, some (js "a@b.c"), false⟩
  readTimeoutSeconds := none
  hostDockerSocket := js "/var/run/docker.sock"
  remote := false

def older : Proxy where
  running := true
  cmd := [certResolver ++ js "email=a@b.c"]
  env := []
  httpPort := some 80
  httpsPort := some 443
  binds := []

def host : World where
  image := true
  network := true
  proxy := some older
  swarm := false
  server := none
  connections := fun _ => some (js "token")
  binding := none
  hosts := []
  previews := []

/-- Everything goes well until the image is to be pulled. -/
theorem unharmed_beforehand :
    Unharmed { host with image := false } (((Operation.enable 1 true).run plain).run
      (List.replicate 8 .ok ++ [.failed]) { host with image := false } []).2.1 :=
  (unharmed_iff plain (.enable 1 true) { host with image := false } older _ rfl rfl).mpr
    (by decide)

/-- The old container is gone when the new one cannot be created. -/
theorem proxy_gone :
    ¬ ∀ h op w p os, w.proxy = some p → p.running = true → ((Operation.run h op).run os w []).1 = none →
      Unharmed w ((op.run h).run os w []).2.1 := by
  intro hall
  obtain ⟨-, p, q, -, hq, -⟩ := hall plain (.upgradeToCustomCerts plain.localSettings) host older
    (List.replicate 10 .ok ++ [.failed]) rfl rfl rfl
  cases hq

end Aoox.ProxyRecreate
