import Aoox.ProxyRecreate

/-! # What a recreated proxy keeps

`settingsOf` reads the settings of a proxy back from its command line and its ports, so that the
container can be created again.  The command line of a proxy without an e-mail has no
certificate resolver and so does not tell whether the staging server was wanted
(`acmeStagingOf_containerOf`), port 0 is no port (`settingsOf_containerOf`), and the DNS binding is
looked up for the server of the fallback.  `recreateWithAcme` keeps command and ports exactly
where none of this matters (`recreate_keeps_iff`).  `upgradeToCustomCerts` leaves every container
of `provisionOn` alone.
-/
namespace Aoox.ProxyRecreate
open JsString Scripts List Option

/-! ## Reading a command line back -/

def commonFlags (h : Panel) (swarm : Bool) : List JsString :=
  [js "--providers.docker=true", js "--providers.docker.exposedbydefault=false",
    js "--providers.docker.network=aoox"] ++
  (if swarm then
    [js "--providers.swarm=true", js "--providers.swarm.exposedbydefault=false",
      js "--providers.swarm.network=aoox-swarm", js "--providers.swarm.refreshSeconds=3"]
  else []) ++
  [certsDirectoryFlag, js "--providers.file.watch=true", js "--entrypoints.web.address=:80",
    js "--entrypoints.websecure.address=:443",
    js "--serverstransport.forwardingtimeouts.dialtimeout=1s", js "--log.level=INFO"] ++
  (h.readTimeoutSeconds.map readTimeoutFlags).getD []

def resolverFlags (email : Option JsString) (staging dns : Bool) : List JsString :=
  match email with
  | none => []
  | some email =>
    [certResolver ++ js "email=" ++ email, certResolver ++ js "storage=/letsencrypt/acme.json",
      certResolver ++ js "httpchallenge.entrypoint=web"] ++
    (if staging then [certResolver ++ stagingServer] else []) ++
    if dns then
      [dnsCertResolver ++ js "email=" ++ email,
        dnsCertResolver ++ js "storage=/letsencrypt/acme-dns.json", DNS_RESOLVER_PROVIDER_FLAG] ++
      if staging then [dnsCertResolver ++ stagingServer] else []
    else []

variable {h : Panel} {swarm : Bool} {s : Settings} {dns : Option JsString}

theorem commandOf_eq : commandOf h swarm s dns =
    commonFlags h swarm ++ resolverFlags s.email s.acmeStaging dns.isSome := by
  cases hemail : s.email with
  | none => simp only [commandOf, hemail]; rfl
  | some email => simp only [commandOf, hemail]; rfl

variable {text p : JsString} {n : Nat}

/-- A text begins the way its beginning does. -/
theorem take_of_startsWith (hstart : startsWith text p = true)
    (hn : n ≤ p.length) : text.take n = p.take n := by
  obtain ⟨rest, rfl⟩ := of_decide_eq_true hstart
  exact take_append_of_le_length hn

theorem take_commonFlags {c : JsString} (hc : c ∈ commonFlags h swarm) : c.take 3 ≠ js "--c" := by
  simp only [commonFlags, mem_append] at hc
  rcases hc with ((hc | hc) | hc) | hc
  · revert c
    decide
  · revert c
    cases swarm <;> decide
  · revert c
    decide
  · cases hseconds : h.readTimeoutSeconds with
    | none =>
      rw [hseconds] at hc
      cases hc
    | some seconds =>
      rw [hseconds] at hc
      simp only [map_some, getD_some, readTimeoutFlags, List.mem_map] at hc
      obtain ⟨ep, -, rfl⟩ := hc
      have hfront : ∀ rest, (js "--entrypoints." ++ rest).take 3 = js "--e" := by
        intro rest
        exact (take_append_of_le_length (by decide)).trans (by decide)
      rw [append_assoc, append_assoc, append_assoc, hfront]
      decide

theorem find?_commandOf (hp : p.take 3 = js "--c") (hlen : 3 ≤ p.length) :
    (commandOf h swarm s dns).find? (fun c => startsWith c p) =
      (resolverFlags s.email s.acmeStaging dns.isSome).find? fun c => startsWith c p := by
  have hcommon : (commonFlags h swarm).find? (fun c => startsWith c p) = none := by
    refine List.find?_eq_none.mpr ?_
    intro c hc hstart
    exact take_commonFlags hc ((take_of_startsWith hstart hlen).trans hp)
  rw [commandOf_eq, List.find?_append, hcommon, none_or]

/-- A flag with the wrong beginning is not found. -/
theorem not_startsWith (hn : n ≤ p.length)
    (hne : text.take n ≠ p.take n) : startsWith text p = false :=
  Bool.eq_false_iff.mpr fun hstart => hne (take_of_startsWith hstart hn)

theorem startsWith_append (p rest : JsString) : startsWith (p ++ rest) p = true :=
  decide_eq_true (prefix_append p rest)

/-- **The e-mail is read back.** -/
theorem acmeEmailOf_containerOf : (containerOf h swarm s dns).acmeEmailOf = s.email := by
  show ((commandOf h swarm s dns).find? _).map _ = _
  rw [find?_commandOf (by decide) (by decide)]
  cases s.email with
  | none => rfl
  | some email =>
    have hfound : startsWith (certResolver ++ js "email=" ++ email) (certResolver ++ js "email=") :=
      startsWith_append _ _
    simp only [resolverFlags, cons_append, List.find?_cons, hfound, map_some, drop_left]

/-- A flag with an e-mail in it begins with what stands before the e-mail. -/
theorem take_emailFlag {resolver email : JsString} (hn : n ≤ (resolver ++ js "email=").length) :
    (resolver ++ js "email=" ++ email).take n = (resolver ++ js "email=").take n :=
  take_append_of_le_length hn

/-- **The staging server is read back where there is a resolver.** -/
theorem acmeStagingOf_containerOf :
    (containerOf h swarm s dns).acmeStagingOf = (s.email.isSome && s.acmeStaging) := by
  have hcmd : (containerOf h swarm s dns).cmd = commandOf h swarm s dns := rfl
  unfold Proxy.acmeStagingOf
  rw [hcmd, find?_commandOf (by decide) (by decide)]
  cases s.email with
  | none => rfl
  | some email =>
    have hemail : startsWith (certResolver ++ js "email=" ++ email)
        (certResolver ++ js "caserver=") = false := by
      refine @not_startsWith _ _ (certResolver.length + 1) (by decide) ?_
      rw [take_emailFlag (by decide)]
      decide
    have hdnsEmail : startsWith (dnsCertResolver ++ js "email=" ++ email)
        (certResolver ++ js "caserver=") = false := by
      refine @not_startsWith _ _ certResolver.length (by decide) ?_
      rw [take_emailFlag (by decide)]
      decide
    -- every other flag is a closed text
    have hothers : ∀ c ∈ [certResolver ++ js "storage=/letsencrypt/acme.json",
        certResolver ++ js "httpchallenge.entrypoint=web",
        dnsCertResolver ++ js "storage=/letsencrypt/acme-dns.json", DNS_RESOLVER_PROVIDER_FLAG],
        startsWith c (certResolver ++ js "caserver=") = false := by
      decide
    simp only [forall_mem_cons, not_mem_nil] at hothers
    obtain ⟨hstorage, hchallenge, hdnsStorage, hprovider, -⟩ := hothers
    have hstaging : startsWith (certResolver ++ stagingServer) (certResolver ++ js "caserver=") = true := by
      decide
    have hincludes : includes (certResolver ++ stagingServer) (js "staging") = true := by decide
    cases s.acmeStaging <;> cases dns <;>
      simp [-append_assoc, resolverFlags, hemail, hstorage, hchallenge, hstaging, hdnsEmail,
        hdnsStorage, hprovider, hincludes]

/-- **So is the DNS challenge.** -/
theorem supportsDnsChallenge_containerOf :
    (containerOf h swarm s dns).supportsDnsChallenge = (s.email.isSome && dns.isSome) := by
  show (commandOf h swarm s dns).contains DNS_RESOLVER_PROVIDER_FLAG = _
  have hcommon : DNS_RESOLVER_PROVIDER_FLAG ∉ commonFlags h swarm := by
    intro hmem
    exact take_commonFlags hmem (by decide)
  rw [commandOf_eq, Bool.eq_iff_iff]
  simp only [contains_eq_mem, decide_eq_true_eq, mem_append, hcommon, false_or, Bool.and_eq_true]
  cases s.email with
  | none => simp [resolverFlags]
  | some email =>
    have hemail : ∀ resolver, resolver ∈ [certResolver, dnsCertResolver] →
        DNS_RESOLVER_PROVIDER_FLAG ≠ resolver ++ js "email=" ++ email := by
      intro resolver hresolver heq
      have htake := congrArg (List.take (resolver.length + 1)) heq
      rw [take_emailFlag (by rw [length_append]; exact Nat.add_le_add_left (by decide) _)] at htake
      clear heq
      revert resolver
      decide
    have hclosed : ∀ c ∈ [certResolver ++ js "storage=/letsencrypt/acme.json",
        certResolver ++ js "httpchallenge.entrypoint=web", certResolver ++ stagingServer],
        DNS_RESOLVER_PROVIDER_FLAG ≠ c := by
      decide
    simp only [forall_mem_cons, not_mem_nil] at hclosed
    obtain ⟨hstorage, hchallenge, hstaging, -⟩ := hclosed
    have hle := hemail certResolver (by simp)
    cases s.acmeStaging <;> cases dns <;>
      simp [-append_assoc, resolverFlags, hle, hstorage, hchallenge, hstaging]

theorem supportsCustomCerts_containerOf :
    (containerOf h swarm s dns).supportsCustomCerts = true := by
  have hflag : certsDirectoryFlag ∈ commonFlags h swarm := by simp [commonFlags]
  have hcmd : certsDirectoryFlag ∈ (containerOf h swarm s dns).cmd := by
    show _ ∈ commandOf h swarm s dns
    rw [commandOf_eq]
    exact mem_append_left _ hflag
  have hbind : PROXY_CERTS_VOLUME ++ js ":" ++ PROXY_CERTS_DIR ∈ (containerOf h swarm s dns).binds := by
    simp [containerOf]
  rw [Proxy.supportsCustomCerts, Bool.and_eq_true]
  exact ⟨contains_iff_mem.mpr hcmd, contains_iff_mem.mpr hbind⟩

/-! ## What is created -/

variable {w w' : World} {t t' : List Call} {p q body : Proxy} {α β : Type}

abbrev CreatesOnly (body : Proxy) (t : List Call) (t' : List Call) : Prop :=
  ∀ q, Call.createContainer q ∈ t' → Call.createContainer q ∈ t ∨ q = body

theorem Aside.createsOnly (ha : Aside w t w' t') : CreatesOnly body t t' :=
  fun q hq => Or.inl ((ha.2 (.createContainer q) rfl).mp hq)

theorem replace_creates : (replace swarm body).Ensures (fun _ _ t' => CreatesOnly body t t') w t := by
  have hcalls : (replace swarm body).Only fun c => ∀ q, c = Call.createContainer q → q = body := by
    refine Script.Only.bind (Script.only_await fun q heq => by cases heq) fun existing => ?_
    refine Script.Only.bind ?_ fun _ => Script.Only.bind ?_ fun _ => Script.Only.bind ?_ fun _ => ?_
    · cases existing with
      | none => exact Script.only_pure
      | some running => exact Script.only_await fun q heq => by cases heq
    · exact Script.only_await fun q heq => (Call.createContainer.inj heq).symm
    · cases swarm with
      | false => exact Script.only_pure
      | true => exact Script.only_await fun q heq => by cases heq
    · exact Script.only_await fun q heq => by cases heq
  refine Script.Only.ensures hcalls ?_ fun q hq => Or.inl hq
  intro c r w w' t' hc hold heffect q hq
  rcases mem_append.mp hq with hq | hq
  · exact hold q hq
  · exact Or.inr (hc q (mem_singleton.mp hq).symm)

/-- **The one container `provisionOn` creates.** -/
theorem provisionOn_creates : (provisionOn h s).Ensures
    (fun _ _ t' => CreatesOnly (containerOf h w.swarm s (credentials w)) t t') w t := by
  refine provisionOn_rule (fun w' t' ha => ha.createsOnly) ?_
  intro w₁ t₁ ha
  refine replace_creates.mono ?_
  intro r w' t' hnew q hq
  rcases hnew q hq with hq | hq
  · exact ha.createsOnly q hq
  · exact Or.inr hq

/-- A call that is not refused comes to its end. -/
theorem isSome_call {c : Call} (heffect : (effect c w).isSome) :
    (((call c).run [] w t).1).isSome := by
  obtain ⟨r, hr⟩ := isSome_iff_exists.mp heffect
  show ((Script.run (S := calls) [] w t (Script.call c Script.done Script.thrown)).1).isSome
  simp only [Script.run]
  rw [hr]
  rfl

theorem createContainer_runs (hproxy : w.proxy = some p) :
    Call.createContainer body ∈ ((replace swarm body).run [] w t).2.2 := by
  refine Script.mem_run_bind findContainer_ensures (isSome_call rfl) ?_
  rintro existing w₁ t₁ ⟨ha, hexisting⟩
  rw [hexisting existing rfl, hproxy]
  have hproxy₁ : w₁.proxy = some p := ha.proxy.trans hproxy
  have hremoves : (call .removeContainer).Ensures (fun r w' _ => r.isSome → w'.proxy = none) w₁ t₁ := by
    refine ensures_call (fun hr => by cases hr) ?_
    intro r w₂ heffect
    simp only [effect, hproxy₁, isSome_some, if_true] at heffect
    cases heffect
    exact ⟨fun _ => rfl, fun hr => by cases hr⟩
  refine Script.mem_run_bind hremoves (isSome_call (by simp [effect, hproxy₁])) ?_
  intro _ w₂ t₂ hgone
  have hgone : w₂.proxy = none := hgone rfl
  have hcreates : (call (.createContainer body)).Ensures
      (fun r _ (t' : List Call) => r.isSome → Call.createContainer body ∈ t') w₂ t₂ := by
    refine ensures_call (fun hr => by cases hr) ?_
    intro r w₃ heffect
    exact ⟨fun _ => mem_append_right _ (mem_singleton_self _), fun hr => by cases hr⟩
  refine Script.mem_run_bind hcreates (isSome_call (by simp [effect, hgone])) ?_
  intro _ w₃ t₃ hcreated
  have hmem : Call.createContainer body ∈ t₃ := hcreated rfl
  exact Script.mem_run (S := calls) hmem _ _

theorem isSome_ensureImage : ((ensureImage.run [] w t).1).isSome := by
  refine Script.isSome_run_bind (reads_call (c := .inspectImage) rfl).ensures (isSome_call rfl) ?_
  intro present w₁ t₁ _
  cases present with
  | false => exact isSome_call rfl
  | true => rfl

theorem isSome_ensureNetwork : ((ensureNetwork.run [] w t).1).isSome := by
  refine Script.isSome_run_bind (reads_call (c := .inspectNetwork) rfl).ensures (isSome_call rfl) ?_
  intro present w₁ t₁ _
  cases present with
  | false => exact isSome_call rfl
  | true => rfl

theorem isSome_credentialsFor (h : ∀ c, w.binding = some c → (w.connections c).isSome) :
    ((credentialsFor.run [] w t).1).isSome := by
  refine Script.isSome_run_bind getBinding_ensures (isSome_call rfl) ?_
  rintro row w₁ t₁ ⟨ha, hrow⟩
  rw [hrow row rfl]
  cases hbinding : w.binding with
  | none => rfl
  | some connectionId =>
    have htoken : (effect (.tokenOf connectionId) w₁).isSome := by
      obtain ⟨token, htoken⟩ := isSome_iff_exists.mp (h connectionId hbinding)
      simp only [effect, ha.connections, htoken]
      rfl
    exact Script.isSome_run_bind (reads_call (c := .tokenOf connectionId) rfl).ensures (isSome_call htoken) fun _ _ _ _ => rfl

/-- **When nothing fails, the container is created.** -/
theorem provisionOn_runs (hproxy : w.proxy = some p)
    (hbound : ∀ c, w.binding = some c → (w.connections c).isSome) :
    Call.createContainer (containerOf h w.swarm s (credentials w)) ∈
      ((provisionOn h s).run [] w t).2.2 := by
  refine Script.mem_run_bind reads_ensureImage.ensures isSome_ensureImage ?_
  intro _ w₁ t₁ ha₁
  refine Script.mem_run_bind reads_ensureNetwork.ensures isSome_ensureNetwork ?_
  intro _ w₂ t₂ ha
  have ha₂ := ha₁.trans ha
  refine Script.mem_run_bind (reads_call (c := .other) rfl).ensures (isSome_call rfl) ?_
  intro _ w₃ t₃ ha
  have ha₃ := ha₂.trans ha
  refine Script.mem_run_bind (reads_call (c := .other) rfl).ensures (isSome_call rfl) ?_
  intro _ w₄ t₄ ha
  have ha₄ := ha₃.trans ha
  refine Script.mem_run_bind systemInfo_ensures (isSome_call rfl) ?_
  rintro swarm w₅ t₅ ⟨ha, hswarm⟩
  have ha₅ := ha₄.trans ha
  have hbound₅ : ∀ c, w₅.binding = some c → (w₅.connections c).isSome := by
    rw [ha₅.binding, ha₅.connections]
    exact hbound
  refine Script.mem_run_bind credentialsFor_ensures (isSome_credentialsFor hbound₅) ?_
  rintro dns w₆ t₆ ⟨ha, hdns⟩
  have ha₆ := ha₅.trans ha
  have hsame : credentials w₅ = credentials w := by
    rw [credentials, credentials, ha₅.binding, ha₅.connections]
  rw [hswarm swarm rfl, hdns dns rfl, ha₄.swarm, hsame]
  exact createContainer_runs (ha₆.proxy.trans hproxy)

/-! ## The recreates -/

theorem Aside.not_mem_create (ha : Aside w [] w' t') (q : Proxy) : Call.createContainer q ∉ t' :=
  fun hq => not_mem_nil ((ha.2 (.createContainer q) rfl).mp hq)

/-- What both recreates begin with creates nothing. -/
theorem inspected_creates {f : Proxy → Task Unit} {Q : Proxy → Prop} (hproxy : w.proxy = some p)
    (hf : ∀ w' t', Aside w [] w' t' → (f p).Ensures
      (fun _ _ (t'' : List Call) => ∀ q, Call.createContainer q ∈ t'' → Q q) w' t') :
    (findContainer >>= fun found => if found ≠ some true then (pure () : Task Unit) else
      inspectContainer >>= fun inspect => match inspect with
        | none => pure ()
        | some p => f p).Ensures
      (fun _ _ (t' : List Call) => ∀ q, Call.createContainer q ∈ t' → Q q) w [] := by
  refine Answers.bind findContainer_ensures ?_ fun _ _ ha q hq => absurd hq (ha.not_mem_create q)
  intro w₁ t₁ ha₁
  split
  · exact fun q hq => absurd hq (ha₁.not_mem_create q)
  refine Answers.bind inspectContainer_ensures ?_
    fun _ _ ha q hq => absurd hq ((ha₁.trans ha).not_mem_create q)
  intro w₂ t₂ ha
  rw [ha₁.proxy, hproxy]
  exact hf w₂ t₂ (ha₁.trans ha)

/-- A container is created with these settings, or none. -/
theorem provisionUnless_creates {c : Bool} {x : Task Unit}
    (hx : x = if c then pure () else provisionOn h s) (ha : Aside w [] w' t') :
    x.Ensures (fun _ _ (t'' : List Call) => ∀ q, Call.createContainer q ∈ t'' →
      c = false ∧ q = containerOf h w.swarm s (credentials w)) w' t' := by
  subst hx
  cases c with
  | true => exact fun q hq => absurd hq (ha.not_mem_create q)
  | false =>
    refine provisionOn_creates.mono ?_
    intro r w'' t'' hnew q hq
    have hsame : credentials w' = credentials w := by
      rw [credentials, credentials, ha.binding, ha.connections]
    rcases hnew q hq with hold | hq
    · exact absurd hold (ha.not_mem_create q)
    · rw [ha.swarm, hsame] at hq
      exact ⟨rfl, hq⟩

variable {wanted : JsString} {fallback : Settings}

/-- **The container `recreateWithAcme` creates**, if it creates one. -/
theorem recreateWithAcme_creates (hproxy : w.proxy = some p) :
    (recreateWithAcme h wanted fallback).Ensures
      (fun _ _ (t' : List Call) => ∀ q, Call.createContainer q ∈ t' →
        (!needsAcmeRecreate p.acmeEmailOf wanted) = false ∧
          q = containerOf h w.swarm { p.settingsOf fallback with acmeEmail := some wanted }
            (credentials w)) w [] := by
  refine inspected_creates hproxy fun _ _ ha => provisionUnless_creates ?_ ha
  cases needsAcmeRecreate p.acmeEmailOf wanted <;> rfl

/-- **The container `upgradeToCustomCerts` creates**, if it creates one. -/
theorem upgradeToCustomCerts_creates (hproxy : w.proxy = some p) :
    (upgradeToCustomCerts h fallback).Ensures
      (fun _ _ (t' : List Call) => ∀ q, Call.createContainer q ∈ t' →
        p.supportsCustomCerts = false ∧
          q = containerOf h w.swarm (p.settingsOf fallback) (credentials w)) w [] :=
  inspected_creates hproxy fun _ _ ha => provisionUnless_creates rfl ha

theorem recreateWithAcme_runs (hproxy : w.proxy = some p) (hrunning : p.running = true)
    (hbound : ∀ c, w.binding = some c → (w.connections c).isSome)
    (hneeds : needsAcmeRecreate p.acmeEmailOf wanted = true) :
    Call.createContainer (containerOf h w.swarm
        { p.settingsOf fallback with acmeEmail := some wanted } (credentials w)) ∈
      ((recreateWithAcme h wanted fallback).run [] w t).2.2 := by
  refine Script.mem_run_bind findContainer_ensures (isSome_call rfl) ?_
  rintro found w₁ t₁ ⟨ha₁, hfound⟩
  have hfound : found = some true := by rw [hfound found rfl, hproxy, ← hrunning]; rfl
  rw [if_neg (not_not_intro hfound)]
  refine Script.mem_run_bind inspectContainer_ensures (isSome_call rfl) ?_
  rintro inspect w₂ t₂ ⟨ha, hinspect⟩
  have ha₂ := ha₁.trans ha
  rw [hinspect inspect rfl, ha₁.proxy, hproxy]
  simp only [if_pos hneeds]
  have hbound₂ : ∀ c, w₂.binding = some c → (w₂.connections c).isSome := by
    rw [ha₂.binding, ha₂.connections]
    exact hbound
  have hsame : credentials w₂ = credentials w := by
    rw [credentials, credentials, ha₂.binding, ha₂.connections]
  rw [← hsame, ← ha₂.swarm]
  exact provisionOn_runs (ha₂.proxy.trans hproxy) hbound₂

/-! ## Settings of a server -/

/-- `ProxySettings` with the server the proxy belongs to; `none` is the panel's own host. -/
structure ServerSettings extends Settings where
  serverId : Option JsString

def ServerSettings.withEmail (s : ServerSettings) (wanted : JsString) : ServerSettings :=
  { s with acmeEmail := some wanted }

/-- The rows of `proxy_dns_bindings` and the connections; the foreign key keeps the connection of
every row. -/
structure DnsBindings where
  row : Option JsString → Option Nat
  connections : Nat → Option JsString
  referenced : ∀ serverId connectionId, row serverId = some connectionId →
    (connections connectionId).isSome

/-- The world as `credentialsFor(serverId)` sees it. -/
def DnsBindings.facing (b : DnsBindings) (serverId : Option JsString) (w : World) : World :=
  { w with binding := b.row serverId, connections := b.connections }

/-- A running container that `provisionOn` created, on any panel and whatever failed. -/
def CreatedWith (s : ServerSettings) (p : Proxy) : Prop :=
  ∃ (h₀ : Panel) (b₀ : DnsBindings) (w₀ : World) (os₀ : List Outcome) (body : Proxy),
    Call.createContainer body ∈
      ((provisionOn h₀ s.toSettings).run os₀ (b₀.facing s.serverId w₀) []).2.2 ∧ p = body.start

/-- The command and the ports are those of a container that `provisionOn` creates. -/
def LikeProvisioned (h : Panel) (b : DnsBindings) (w : World) (s : ServerSettings)
    (q : Proxy) : Prop :=
  ∃ q', Call.createContainer q' ∈
      ((provisionOn h s.toSettings).run [] (b.facing s.serverId w) []).2.2 ∧
    q.cmd = q'.cmd ∧ q.httpPort = q'.httpPort ∧ q.httpsPort = q'.httpsPort

/-- What `settingsOf` and the binding of the fallback's server give back. -/
def Recoverable (b : DnsBindings) (original fallback : ServerSettings) : Prop :=
  (original.acmeStaging = true → original.email.isSome = true) ∧
    (b.row original.serverId).isSome = (b.row fallback.serverId).isSome ∧
    (original.httpPort = 0 → fallback.httpPort = 0) ∧
      (original.httpsPort = 0 → fallback.httpsPort = 0)

variable {b : DnsBindings} {original fallback : ServerSettings} {wanted : JsString}

theorem isSome_credentials (b : DnsBindings) (serverId : Option JsString) (w : World) :
    (credentials (b.facing serverId w)).isSome = (b.row serverId).isSome := by
  show ((b.row serverId).bind b.connections).isSome = _
  cases hrow : b.row serverId with
  | none => rfl
  | some connectionId => exact b.referenced serverId connectionId hrow

theorem CreatedWith.container (hcreated : CreatedWith original p) :
    ∃ h₀ swarm₀ dns₀, p = (containerOf h₀ swarm₀ original.toSettings dns₀).start := by
  obtain ⟨h₀, b₀, w₀, os₀, body, hbody, rfl⟩ := hcreated
  rcases Script.ensures_run provisionOn_creates os₀ body hbody with hnil | hbody
  · cases hnil
  · exact ⟨h₀, _, _, congrArg Proxy.start hbody⟩

/-- **What is read back of a container of `provisionOn`.** -/
theorem settingsOf_containerOf (fallback : Settings) :
    (containerOf h swarm s dns).start.settingsOf fallback =
      { httpPort := if 0 < s.httpPort then s.httpPort else fallback.httpPort
        httpsPort := if 0 < s.httpsPort then s.httpsPort else fallback.httpsPort
        acmeEmail := s.email
        acmeStaging := s.email.isSome && s.acmeStaging } := by
  have hport : ∀ port default : Nat, ((some port).filter (0 < ·)).getD default =
      if 0 < port then port else default := by
    intro port default
    by_cases hpos : 0 < port <;> simp [Option.filter, hpos]
  show Settings.mk _ _ (containerOf h swarm s dns).acmeEmailOf (containerOf h swarm s dns).acmeStagingOf = _
  rw [acmeEmailOf_containerOf, acmeStagingOf_containerOf]
  congr 1
  · exact hport _ _
  · exact hport _ _

theorem likeProvisioned_iff (hproxy : w.proxy = some p) {s : ServerSettings} :
    LikeProvisioned h b w s q ↔
      q.cmd = commandOf h w.swarm s.toSettings (credentials (b.facing s.serverId w)) ∧
        q.httpPort = some s.httpPort ∧ q.httpsPort = some s.httpsPort := by
  constructor
  · rintro ⟨q', hq', hcmd, hhttp, hhttps⟩
    rcases Script.ensures_run provisionOn_creates [] q' hq' with hnil | rfl
    · cases hnil
    · exact ⟨hcmd, hhttp, hhttps⟩
  · intro hlike
    exact ⟨_, provisionOn_runs (w := b.facing s.serverId w) hproxy (b.referenced s.serverId), hlike⟩

/-! ## What is kept -/

/-- With an e-mail a command line tells the staging flag and the DNS challenge. -/
theorem commandOf_eq_iff {s' : Settings} {dns' : Option JsString} (hemail : s.email = s'.email)
    (hsome : s.email.isSome = true) :
    commandOf h swarm s dns = commandOf h swarm s' dns' ↔
      s.acmeStaging = s'.acmeStaging ∧ dns.isSome = dns'.isSome := by
  constructor
  · intro hcmd
    have hstaging : (containerOf h swarm s dns).acmeStagingOf =
        (containerOf h swarm s' dns').acmeStagingOf := by
      simp only [Proxy.acmeStagingOf, containerOf, hcmd]
    have hdns : (containerOf h swarm s dns).supportsDnsChallenge =
        (containerOf h swarm s' dns').supportsDnsChallenge := by
      simp only [Proxy.supportsDnsChallenge, containerOf, hcmd]
    rw [acmeStagingOf_containerOf, acmeStagingOf_containerOf, ← hemail, hsome, Bool.true_and,
      Bool.true_and] at hstaging
    rw [supportsDnsChallenge_containerOf, supportsDnsChallenge_containerOf, ← hemail, hsome,
      Bool.true_and, Bool.true_and] at hdns
    exact ⟨hstaging, hdns⟩
  · rintro ⟨hstaging, hdns⟩
    rw [commandOf_eq, commandOf_eq, hemail, hstaging, hdns]

theorem port_kept_iff (port fallback : Nat) :
    some (if 0 < port then port else fallback) = some port ↔ (port = 0 → fallback = 0) := by
  rw [some.injEq]
  by_cases hpos : 0 < port
  · rw [if_pos hpos]
    exact iff_of_true rfl fun hzero => absurd hzero (Nat.ne_of_gt hpos)
  · have hzero : port = 0 := by omega
    rw [if_neg hpos, hzero]
    simp

/-- **When `recreateWithAcme` keeps everything but the e-mail.** -/
theorem acme_kept_iff (hproxy : w.proxy = some p) (hcreated : CreatedWith original p) :
    (∀ os q, Call.createContainer q ∈ ((recreateWithAcme h wanted fallback.toSettings).run os
        (b.facing fallback.serverId w) []).2.2 →
      LikeProvisioned h b w (original.withEmail wanted) q) ↔
        (needsAcmeRecreate original.email wanted = true → Recoverable b original fallback) := by
  obtain ⟨h₀, swarm₀, dns₀, rfl⟩ := hcreated.container
  have hemail : (containerOf h₀ swarm₀ original.toSettings dns₀).start.acmeEmailOf =
      original.email :=
    acmeEmailOf_containerOf
  have hkept : needsAcmeRecreate original.email wanted = true →
      (LikeProvisioned h b w (original.withEmail wanted) (containerOf h w.swarm
        { (containerOf h₀ swarm₀ original.toSettings dns₀).start.settingsOf fallback.toSettings with
          acmeEmail := some wanted } (credentials (b.facing fallback.serverId w))) ↔
        Recoverable b original fallback) := by
    intro hneeds
    have hwanted : wanted ≠ [] := by
      simp only [needsAcmeRecreate, Bool.and_eq_true, decide_eq_true_eq] at hneeds
      exact hneeds.1
    have hsome : ∀ s : Settings, s.acmeEmail = some wanted → s.email = some wanted := by
      intro s hs
      simp [Settings.email, hs, Option.filter, hwanted]
    rw [settingsOf_containerOf, likeProvisioned_iff hproxy]
    have hcmd := @commandOf_eq_iff h w.swarm
      { httpPort := if 0 < original.httpPort then original.httpPort else fallback.httpPort
        httpsPort := if 0 < original.httpsPort then original.httpsPort else fallback.httpsPort
        acmeEmail := some wanted
        acmeStaging := original.email.isSome && original.acmeStaging }
      (credentials (b.facing fallback.serverId w)) (original.withEmail wanted).toSettings
      (credentials (b.facing original.serverId w)) ((hsome _ rfl).trans (hsome _ rfl).symm)
      (by rw [hsome _ rfl]; rfl)
    refine (and_congr hcmd (and_congr (port_kept_iff original.httpPort fallback.httpPort)
      (port_kept_iff original.httpsPort fallback.httpsPort))).trans ?_
    rw [isSome_credentials, isSome_credentials, Recoverable, and_assoc]
    refine and_congr ?_ (and_congr eq_comm Iff.rfl)
    show (original.email.isSome && original.acmeStaging) = original.acmeStaging ↔ _
    cases original.email.isSome <;> cases original.acmeStaging <;> simp
  constructor
  · intro hall hneeds
    refine (hkept hneeds).mp (hall [] _ ?_)
    exact recreateWithAcme_runs (w := b.facing fallback.serverId w) hproxy rfl
      (b.referenced fallback.serverId) (hemail ▸ hneeds)
  · intro hcondition os q hq
    obtain ⟨hneeds, rfl⟩ := Script.ensures_run
      (recreateWithAcme_creates (w := b.facing fallback.serverId w) hproxy) os q hq
    rw [hemail, Bool.not_eq_false'] at hneeds
    exact (hkept hneeds).mpr (hcondition hneeds)

/-- **When a recreate keeps the command and the ports.**  A container of `provisionOn` can serve
custom certificates, so `upgradeToCustomCerts` creates nothing.  `recreateWithAcme` creates a
container like the one `provisionOn` creates with the original settings and the new e-mail
exactly if nothing is to be done, or nothing that is not read back matters. -/
theorem recreate_keeps_iff (h : Panel) (b : DnsBindings) (w : World)
    (original fallback : ServerSettings)
    (wanted : JsString) (p : Proxy) (hproxy : w.proxy = some p)
    (hcreated : CreatedWith original p) :
    ((∀ os q, Call.createContainer q ∈ ((upgradeToCustomCerts h fallback.toSettings).run os
        (b.facing fallback.serverId w) []).2.2 → LikeProvisioned h b w original q) ∧
      ∀ os q, Call.createContainer q ∈ ((recreateWithAcme h wanted fallback.toSettings).run os
        (b.facing fallback.serverId w) []).2.2 →
        LikeProvisioned h b w (original.withEmail wanted) q) ↔
      (needsAcmeRecreate original.email wanted = true → Recoverable b original fallback) := by
  rw [acme_kept_iff hproxy hcreated]
  refine and_iff_right ?_
  intro os q hq
  obtain ⟨h₀, swarm₀, dns₀, rfl⟩ := hcreated.container
  obtain ⟨hsupports, -⟩ := Script.ensures_run
    (upgradeToCustomCerts_creates (w := b.facing fallback.serverId w) hproxy) os q hq
  rw [show (containerOf h₀ swarm₀ original.toSettings dns₀).start.supportsCustomCerts = true from
    supportsCustomCerts_containerOf] at hsupports
  cases hsupports

/-! ## A panel with the staging server -/

def unbound : DnsBindings where
  row := fun _ => none
  connections := fun _ => none
  referenced := by
    intro serverId connectionId hrow
    cases hrow

def stagingSettings (email : Option JsString) : ServerSettings where
  httpPort := 80
  httpsPort := 443
  acmeEmail := email
  acmeStaging := true
  serverId := none

def stagingProxy (email : Option JsString) : Proxy :=
  (containerOf plain false (stagingSettings email).toSettings none).start

theorem stagingProxy_created (email : Option JsString) :
    CreatedWith (stagingSettings email) (stagingProxy email) :=
  ⟨plain, unbound, host, [], _,
    provisionOn_runs (w := unbound.facing none host) (p := older) rfl (unbound.referenced none), rfl⟩

theorem recreate_keeps_staging :
    (∀ os q, Call.createContainer q ∈ ((upgradeToCustomCerts plain (stagingSettings none).toSettings).run os
        (unbound.facing none { host with proxy := some (stagingProxy (some (js "a@b.c"))) }) []).2.2 →
      LikeProvisioned plain unbound { host with proxy := some (stagingProxy (some (js "a@b.c"))) }
        (stagingSettings (some (js "a@b.c"))) q) ∧
      ∀ os q, Call.createContainer q ∈
        ((recreateWithAcme plain (js "d@e.f") (stagingSettings none).toSettings).run os
          (unbound.facing none { host with proxy := some (stagingProxy (some (js "a@b.c"))) }) []).2.2 →
        LikeProvisioned plain unbound { host with proxy := some (stagingProxy (some (js "a@b.c"))) }
          ((stagingSettings (some (js "a@b.c"))).withEmail (js "d@e.f")) q := by
  refine (recreate_keeps_iff plain unbound
    { host with proxy := some (stagingProxy (some (js "a@b.c"))) } (stagingSettings (some (js "a@b.c")))
    (stagingSettings none) (js "d@e.f") _ rfl (stagingProxy_created _)).mpr fun _ => ?_
  exact ⟨fun _ => rfl, rfl, by decide, by decide⟩

/-- A proxy that was created without an e-mail moves to the production server. -/
theorem staging_forgotten :
    ¬ ∀ (h : Panel) (b : DnsBindings) (w : World) (original fallback : ServerSettings)
    (wanted : JsString)
      (p : Proxy), w.proxy = some p → CreatedWith original p →
      (∀ os q, Call.createContainer q ∈ ((upgradeToCustomCerts h fallback.toSettings).run os
          (b.facing fallback.serverId w) []).2.2 → LikeProvisioned h b w original q) ∧
        ∀ os q, Call.createContainer q ∈ ((recreateWithAcme h wanted fallback.toSettings).run os
          (b.facing fallback.serverId w) []).2.2 →
          LikeProvisioned h b w (original.withEmail wanted) q := by
  intro hall
  have hkept := (hall plain unbound { host with proxy := some (stagingProxy none) } (stagingSettings none)
    (stagingSettings none) (js "a@b.c") (stagingProxy none) rfl (stagingProxy_created none)).2
  obtain ⟨hstaging, -⟩ := (acme_kept_iff rfl (stagingProxy_created none)).mp hkept (by decide)
  exact absurd (hstaging rfl) (by decide)

/-! ## Containers from before custom certificates -/

end Aoox.ProxyRecreate
