import Aoox.ProjectFile

/-! # What an update of a domain writes

A domain serves an uploaded certificate or an automatic one.  An uploaded certificate needs
https and has to cover the host; the DNS modes are for automatic certificates.  A request
that updates a domain sends any part of this, with the middlewares and the DNS connection,
and only the columns that change are written.  `planUpdate` is everything the request
decides between its last read and its write; `planned_exclusive` and
`planned_certificate` say what a write can do to the certificate and its mode.
-/
namespace Aoox.Domains
open JsString
open Transfer (CertMode)

/-! ## Names of a certificate -/

section Matching
variable (lower : JsString → JsString)

/-- `trim().toLowerCase().replace(/\\.$/, '')`. -/
def normalHost (host : JsString) : JsString :=
  let h := lower (trim host)
  if h.getLast? = some (cu '.') then h.dropLast else h

/-- A wildcard stands for exactly one label, the leftmost one. -/
def matchesName (h n : JsString) : Bool :=
  if n = [] then false
  else if n = h then true
  else if startsWith n (js "*.") then
    let suffix := n.drop 1
    if suffix.length < 3 || !(suffix.drop 1).contains (cu '.') then false
    else if suffix <:+ h then
      let label := h.take (h.length - suffix.length)
      0 < label.length && !label.contains (cu '.')
    else false
  else false

def domainMatches (host : JsString) (names : List JsString) : Bool :=
  let h := normalHost lower host
  if h = [] then false else names.any fun raw => matchesName h (normalHost lower raw)

def assertCovers (hosts names : List JsString) : Except JsString Unit :=
  let uncovered := hosts.filter fun h => !domainMatches lower h names
  if 0 < uncovered.length then
    .error (js "The certificate does not cover " ++ join uncovered (js ", ") ++
      js " (it is valid for " ++ join names (js ", ") ++ js ")")
  else .ok ()

end Matching

/-! ## Certificate modes -/

def wildcardBase (lower : JsString → JsString) (host : JsString) : Option JsString :=
  let labels := split (lower (trim host)) (js ".")
  if labels.length < 3 then none else some (join (labels.drop 1) (js "."))

def assertCertMode (lower : JsString → JsString) (mode : CertMode) (host : JsString)
    (https hasCustomCertificate proxyHasDns : Bool) : Except JsString Unit :=
  if mode = .http then .ok ()
  else if !https then .error (js "A DNS-01 certificate needs https enabled on the domain")
  else if hasCustomCertificate then
    .error (js "A domain with an uploaded certificate cannot also use DNS-01; choose one")
  else if mode = .dnsWildcard && (wildcardBase lower host).isNone then
    .error (host ++ js " has no parent domain to issue a wildcard for")
  else if !proxyHasDns then
    .error (js "Enable DNS-01 on this proxy first (Infrastructure, Proxy, DNS-01 certificates)")
  else .ok ()

variable {lower : JsString → JsString} {proxyHasDns : Bool}

/-- An uploaded certificate and a DNS mode do not go together. -/
theorem assertCertMode_ok {mode : CertMode} {host : JsString} {https custom : Bool} {u : Unit}
    (h : assertCertMode lower mode host https custom proxyHasDns = .ok u) :
    mode = .http ∨ custom = false := by
  unfold assertCertMode at h
  split at h
  · left
    assumption
  · split at h
    · cases h
    · split at h
      · cases h
      · right
        simpa using ‹¬custom = true›

/-! ## Requests -/

/-- A row of the domains: what the requests read and write of it. -/
structure Domain where
  id : Nat
  host : JsString
  https : Bool
  certificateId : Option Nat
  middlewares : List JsString
  certMode : CertMode
  dnsConnectionId : Option Nat
  dnsProxied : Bool
  deriving DecidableEq

/-- Each part may be left out; a certificate or a connection that is sent empty is taken
off. -/
structure UpdateDomainDto where
  certificateId : Option (Option Nat)
  middlewares : Option (List JsString)
  certMode : Option CertMode
  dnsConnectionId : Option (Option Nat)
  (dnsProxied dnsOverwrite : Option Bool)

/-- The columns an update writes. -/
structure Patch where
  certificateId : Option (Option Nat)
  middlewares : Option (List JsString)
  certMode : Option CertMode
  dnsConnectionId : Option (Option Nat)
  dnsProxied : Option Bool

def Patch.apply (p : Patch) (d : Domain) : Domain where
  id := d.id
  host := d.host
  https := d.https
  certificateId := p.certificateId.getD d.certificateId
  middlewares := p.middlewares.getD d.middlewares
  certMode := p.certMode.getD d.certMode
  dnsConnectionId := p.dnsConnectionId.getD d.dnsConnectionId
  dnsProxied := p.dnsProxied.getD d.dnsProxied

/-- What the request puts back when the certificates could not be written to the proxy. -/
def restore (loaded : Domain) : Patch where
  certificateId := some loaded.certificateId
  middlewares := some loaded.middlewares
  certMode := some loaded.certMode
  dnsConnectionId := none
  dnsProxied := none

/-- A request that sends nothing is refused. -/
def UpdateDomainDto.isEmpty (dto : UpdateDomainDto) : Bool :=
  dto.certificateId.isNone && dto.middlewares.isNone && dto.certMode.isNone &&
    dto.dnsConnectionId.isNone && dto.dnsProxied.isNone && dto.dnsOverwrite.isNone

def UpdateDomainDto.assigned (dto : UpdateDomainDto) : Option Nat := dto.certificateId.getD none

/-- `[...new Set(dto.middlewares)]`. -/
def UpdateDomainDto.wanted (dto : UpdateDomainDto) : Option (List JsString) :=
  dto.middlewares.map List.eraseDups

/-- The checks on the certificate that the request assigns, given its names. -/
def checkCertificate (lower : JsString → JsString) (domain : Domain) (names : List JsString) :
    Except JsString Unit :=
  if !domain.https then .error (js "A custom certificate needs https enabled on the domain")
  else assertCovers lower [domain.host] names

section Plan
variable (domain : Domain) (dto : UpdateDomainDto)

def nextCertificateId : Option Nat := dto.certificateId.getD domain.certificateId

def nextCertMode : CertMode := dto.certMode.getD domain.certMode

def nextDnsConnection : Option Nat := dto.dnsConnectionId.getD domain.dnsConnectionId

def nextProxied : Bool := dto.dnsProxied.getD domain.dnsProxied

/-- Lists of middlewares are compared as texts. -/
def middlewaresChanged : Bool :=
  dto.wanted.any fun middlewares => join middlewares (js ",") ≠ join domain.middlewares (js ",")

def dnsTouched : Bool :=
  nextDnsConnection domain dto ≠ domain.dnsConnectionId || nextProxied domain dto ≠ domain.dnsProxied ||
    dto.dnsOverwrite = some true

/-- A column is written when it changes. -/
def changed {V : Type} [DecidableEq V] (current next : V) : Option V :=
  if next ≠ current then some next else none

def plannedPatch : Patch where
  certificateId := changed domain.certificateId (nextCertificateId domain dto)
  middlewares := if middlewaresChanged domain dto then dto.wanted else none
  certMode := changed domain.certMode (nextCertMode domain dto)
  dnsConnectionId := changed domain.dnsConnectionId (nextDnsConnection domain dto)
  dnsProxied := changed domain.dnsProxied (nextProxied domain dto)

/-- What is written, after the checks that need no more of the certificate than its id;
`none` when the request changes nothing. -/
def planUpdate (lower : JsString → JsString) (proxyHasDns connectionExists : Bool) :
    Except JsString (Option Patch) := do
  assertCertMode lower (nextCertMode domain dto) domain.host domain.https
    (nextCertificateId domain dto).isSome proxyHasDns
  if (nextDnsConnection domain dto).isSome &&
      nextDnsConnection domain dto ≠ domain.dnsConnectionId && !connectionExists then
    throw (js "DNS connection not found")
  if domain.certificateId = nextCertificateId domain dto && !middlewaresChanged domain dto &&
      nextCertMode domain dto = domain.certMode && !dnsTouched domain dto then
    return none
  return some (plannedPatch domain dto)

end Plan

variable {domain : Domain} {dto : UpdateDomainDto}

@[simp] theorem getD_changed {V : Type} [DecidableEq V] (current next : V) :
    (changed current next).getD current = next := by
  unfold changed
  split
  · rfl
  · rename_i h
    exact (not_not.mp h).symm

theorem changed_eq_some {V : Type} [DecidableEq V] {current next v : V}
    (h : changed current next = some v) : v = next ∧ next ≠ current := by
  unfold changed at h
  split at h
  · rename_i hne
    exact ⟨(Option.some.inj h).symm, hne⟩
  · cases h

variable {connectionExists : Bool} {p : Patch}

theorem planUpdate_some
    (h : planUpdate domain dto lower proxyHasDns connectionExists = .ok (some p)) :
    p = plannedPatch domain dto ∧
      (nextCertMode domain dto = .http ∨ nextCertificateId domain dto = none) := by
  unfold planUpdate at h
  cases hmode : assertCertMode lower (nextCertMode domain dto) domain.host domain.https
      (nextCertificateId domain dto).isSome proxyHasDns with
  | error e =>
    rw [hmode] at h
    cases h
  | ok u =>
    rw [hmode] at h
    refine ⟨?_, ?_⟩
    · simp only [bind, Except.bind] at h
      split at h
      · cases h
      · split at h
        · cases h
        · cases h
          rfl
    · rcases assertCertMode_ok hmode with hhttp | hnone
      · exact Or.inl hhttp
      · exact Or.inr (by simpa using hnone)

/-- **The row a request has read is left with an uploaded certificate or a DNS mode, not
both.** -/
theorem planned_exclusive
    (h : planUpdate domain dto lower proxyHasDns connectionExists = .ok (some p)) :
    (p.apply domain).certMode = .http ∨ (p.apply domain).certificateId = none := by
  obtain ⟨rfl, hexclusive⟩ := planUpdate_some h
  simpa [Patch.apply, plannedPatch] using hexclusive

/-- A certificate that is written is the one the request sent. -/
theorem planned_certificate
    (h : planUpdate domain dto lower proxyHasDns connectionExists = .ok (some p)) {c : Option Nat}
    (hc : p.certificateId = some c) : dto.certificateId = some c := by
  obtain ⟨rfl, -⟩ := planUpdate_some h
  obtain ⟨rfl, hne⟩ := changed_eq_some hc
  cases hsent : dto.certificateId with
  | none => simp [nextCertificateId, hsent] at hne
  | some c => simp [nextCertificateId, hsent]

end Aoox.Domains
