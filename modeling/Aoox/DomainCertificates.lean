import Aoox.DomainUpdate

/-! # Domains and the certificates they serve

Three requests keep domains and uploaded certificates together.  A domain is added with a
certificate that covers it; an update assigns another one, or changes the mode; and a
certificate gets new names when it still covers the domains that use it.  Each reads what
the others write, and writes later, and an update whose certificate does not reach the
proxy puts the columns back that it had loaded.

`step` is any number of these requests, from one await to the next.  Every domain with a
certificate has https, no DNS mode, and a host the certificate's names cover, in every state
of a run exactly when every write is made while what was checked is still so
(`covered_iff`).
-/
namespace Aoox.Domains
open JsString List Option
open Transfer (CertMode)

structure AddDomainDto where
  host : JsString
  https : Option Bool
  certificateId : Option Nat
  certMode : Option CertMode
  dnsConnectionId : Option Nat
  dnsProxied : Option Bool

/-- The checks on the certificate of a new domain, given its names. -/
def AddDomainDto.checkCertificate (lower : JsString → JsString) (dto : AddDomainDto) (host : JsString)
    (names : List JsString) : Except JsString Unit :=
  if !dto.https.getD false then
    .error (js "A custom certificate needs https enabled on the domain")
  else assertCovers lower [host] names

/-- The checks after the certificate's. -/
def AddDomainDto.checkRest (lower : JsString → JsString) (dto : AddDomainDto) (host : JsString)
    (proxyHasDns connectionExists : Bool) : Except JsString Unit := do
  assertCertMode lower (dto.certMode.getD .http) host (dto.https.getD false) dto.certificateId.isSome
    proxyHasDns
  if dto.dnsConnectionId.isSome && !connectionExists then throw (js "DNS connection not found")

def AddDomainDto.row (dto : AddDomainDto) (host : JsString) (id : Nat) : Domain where
  id := id
  host := host
  https := dto.https.getD false
  certificateId := dto.certificateId
  middlewares := []
  certMode := dto.certMode.getD .http
  dnsConnectionId := dto.dnsConnectionId
  dnsProxied := dto.dnsProxied.getD false

/-- A request that adds a domain. -/
inductive Adding where
  | free (dto : AddDomainDto) (host : JsString)
  /-- The certificate, if one is asked for, covers the host. -/
  | certified (dto : AddDomainDto) (host : JsString)
  | inserting (dto : AddDomainDto) (host : JsString)
  /-- The certificate is written to the proxy. -/
  | syncing (id : Nat)

/-- A request that updates a domain, with the row it has loaded. -/
inductive Updating where
  | loaded (domain : Domain) (dto : UpdateDomainDto)
  /-- The certificate, if one is assigned, covers the host. -/
  | certified (domain : Domain) (dto : UpdateDomainDto)
  | writing (domain : Domain) (patch : Patch)
  /-- The certificates are written to the proxy. -/
  | syncing (domain : Domain)
  | restoring (domain : Domain)

/-- A request that replaces the content of a certificate. -/
inductive Renewing where
  | loaded (id : Nat) (names : List JsString)
  /-- The names cover the domains that use the certificate. -/
  | checked (id : Nat) (names : List JsString)

structure State where
  domains : List Domain
  /-- The ids of domains there have been. -/
  ids : List Nat
  /-- The names of each certificate. -/
  certificates : Nat → Option (List JsString)
  adding : Nat → Option Adding
  updating : Nat → Option Updating
  renewing : Nat → Option Renewing

inductive Action where
  /-- A request to add a domain looks its host up. -/
  | add (n : Nat) (dto : AddDomainDto)
  | addCertificate (n : Nat)
  | addRest (n : Nat) (proxyHasDns connectionExists : Bool)
  | insert (n id : Nat)
  /-- The certificate of a new domain was written to the proxy, or was not. -/
  | addSynced (n : Nat) (ok : Bool)
  | update (n id : Nat) (dto : UpdateDomainDto)
  | updateCertificate (n : Nat)
  | updateRest (n : Nat) (middlewaresExist proxyHasDns connectionExists : Bool)
  | write (n : Nat)
  | updateSynced (n : Nat) (ok : Bool)
  | restore (n : Nat)
  /-- A request to replace a certificate loads it and parses the new one. -/
  | renew (n id : Nat) (names : List JsString)
  | renewCheck (n : Nat)
  | renewSave (n : Nat)

def initial (domains : List Domain) (certificates : Nat → Option (List JsString)) : State where
  domains := domains
  ids := domains.map Domain.id
  certificates := certificates
  adding := fun _ => none
  updating := fun _ => none
  renewing := fun _ => none

def State.add (s : State) (n : Nat) (a : Option Adding) : State :=
  { s with adding := Function.update s.adding n a }

def State.update (s : State) (n : Nat) (u : Option Updating) : State :=
  { s with updating := Function.update s.updating n u }

def State.renew (s : State) (n : Nat) (r : Option Renewing) : State :=
  { s with renewing := Function.update s.renewing n r }

/-- `domains.update(id, patch)`. -/
def patchRow (domains : List Domain) (id : Nat) (p : Patch) : List Domain :=
  domains.map fun d => if d.id = id then p.apply d else d

/-- A check ends the request when it fails. -/
def passes {R : Type} (check : Except JsString R) : Bool := check.toOption.isSome

/-- The certificate of a request, if it has one, is found and passes the checks. -/
def certificatePasses (s : State) (certificateId : Option Nat)
    (check : List JsString → Except JsString Unit) : Bool :=
  match certificateId with
  | none => true
  | some c => (s.certificates c).any fun names => passes (check names)

variable (lower : JsString → JsString)

def step (s : State) : Action → Option State
  | .add n dto =>
    if (s.adding n).isSome then none
    else
      let host := lower (trim dto.host)
      if s.domains.any fun d => d.host = host then some s
      else some (s.add n (some (.free dto host)))
  | .addCertificate n =>
    match s.adding n with
    | some (.free dto host) =>
      if certificatePasses s dto.certificateId (dto.checkCertificate lower host) then
        some (s.add n (some (.certified dto host)))
      else some (s.add n none)
    | _ => none
  | .addRest n proxyHasDns connectionExists =>
    match s.adding n with
    | some (.certified dto host) =>
      if passes (dto.checkRest lower host proxyHasDns connectionExists) then
        some (s.add n (some (.inserting dto host)))
      else some (s.add n none)
    | _ => none
  | .insert n id =>
    match s.adding n with
    | some (.inserting dto host) =>
      if id ∈ s.ids then none
      -- the unique index on the host
      else if s.domains.any fun d => d.host = host then some (s.add n none)
      else
        some { s.add n (dto.certificateId.map fun _ => .syncing id) with
          domains := dto.row host id :: s.domains, ids := id :: s.ids }
    | _ => none
  | .addSynced n ok =>
    match s.adding n with
    | some (.syncing id) =>
      if ok then some (s.add n none)
      -- a certificate the proxy does not take: the domain is removed again
      else some { s.add n none with domains := s.domains.filter fun d => d.id ≠ id }
    | _ => none
  | .update n id dto =>
    if (s.updating n).isSome then none
    else
      match s.domains.find? fun d => d.id = id with
      | none => some s
      | some domain =>
        if dto.isEmpty then some s else some (s.update n (some (.loaded domain dto)))
  | .updateCertificate n =>
    match s.updating n with
    | some (.loaded domain dto) =>
      if certificatePasses s dto.assigned (checkCertificate lower domain) then
        some (s.update n (some (.certified domain dto)))
      else some (s.update n none)
    | _ => none
  | .updateRest n middlewaresExist proxyHasDns connectionExists =>
    match s.updating n with
    | some (.certified domain dto) =>
      if dto.middlewares.isSome && !middlewaresExist then some (s.update n none)
      else
        match planUpdate domain dto lower proxyHasDns connectionExists with
        | .ok (some patch) => some (s.update n (some (.writing domain patch)))
        | .ok none | .error _ => some (s.update n none)
    | _ => none
  | .write n =>
    match s.updating n with
    | some (.writing domain patch) =>
      -- the columns of the patch are written, whatever the others have become
      some { s.update n (patch.certificateId.map fun _ => .syncing domain) with
        domains := patchRow s.domains domain.id patch }
    | _ => none
  | .updateSynced n ok =>
    match s.updating n with
    | some (.syncing domain) =>
      if ok then some (s.update n none) else some (s.update n (some (.restoring domain)))
    | _ => none
  | .restore n =>
    match s.updating n with
    | some (.restoring domain) =>
      some { s.update n none with domains := patchRow s.domains domain.id (Domains.restore domain) }
    | _ => none
  | .renew n id names =>
    if (s.renewing n).isSome then none
    else if (s.certificates id).isNone then some s
    else some (s.renew n (some (.loaded id names)))
  | .renewCheck n =>
    match s.renewing n with
    | some (.loaded id names) =>
      let hosts := (s.domains.filter fun d => d.certificateId = some id).map Domain.host
      if passes (assertCovers lower hosts names) then some (s.renew n (some (.checked id names)))
      else some (s.renew n none)
    | _ => none
  | .renewSave n =>
    match s.renewing n with
    | some (.checked id names) =>
      some { s.renew n none with certificates := Function.update s.certificates id (some names) }
    | _ => none

/-- The names of a certificate, as they are now, cover a host. -/
def State.covers (s : State) (c : Nat) (host : JsString) : Bool :=
  (s.certificates c).any fun names => domainMatches lower host names

def Serves (s : State) (d : Domain) : Prop :=
  ∀ c, d.certificateId = some c →
    d.https = true ∧ d.certMode = .http ∧ s.covers lower c d.host = true

/-- **Every domain with a certificate has https, no DNS mode, and a host the certificate
covers.** -/
def Covered (s : State) : Prop := ∀ d ∈ s.domains, Serves lower s d

/-- What a patch was checked with is still so of the row it is written to: a certificate it
assigns covers the host, and the column of the two it leaves is as it was loaded. -/
structure Fresh (s : State) (loaded : Domain) (patch : Patch) (d : Domain) : Prop where
  covers : ∀ c, patch.certificateId = some (some c) → s.covers lower c d.host = true
  mode : ∀ c, patch.certificateId = some (some c) → patch.certMode = none →
    d.certMode = loaded.certMode
  certificate : ∀ m, patch.certMode = some m → m ≠ .http → patch.certificateId = none →
    d.certificateId = loaded.certificateId

/-- A write is made while what was checked is still so. -/
def StillChecked (s : State) : Action → Prop
  | .insert n id => ∀ dto host c, s.adding n = some (.inserting dto host) → id ∉ s.ids →
      (s.domains.any fun d => d.host = host) = false → dto.certificateId = some c →
        s.covers lower c host = true
  | .write n => ∀ domain patch, s.updating n = some (.writing domain patch) →
      ∀ d ∈ s.domains, d.id = domain.id → Fresh lower s domain patch d
  | .restore n => ∀ domain, s.updating n = some (.restoring domain) →
      ∀ d ∈ s.domains, d.id = domain.id → ∀ c, domain.certificateId = some c →
        s.covers lower c d.host = true
  | .renewSave n => ∀ id names, s.renewing n = some (.checked id names) →
      ∀ d ∈ s.domains, d.certificateId = some id → domainMatches lower d.host names = true
  | _ => True

/-! ## What a request still knows of the row it has loaded -/

/-- The columns no request writes are as they were loaded, and the loaded row itself serves
what it may. -/
structure Copy (s : State) (loaded : Domain) : Prop where
  known : loaded.id ∈ s.ids
  same : ∀ d ∈ s.domains, d.id = loaded.id → d.host = loaded.host ∧ d.https = loaded.https
  exclusive : ∀ c, loaded.certificateId = some c → loaded.https = true ∧ loaded.certMode = .http

/-- What the checks have found for a request that adds a domain. -/
def Adding.Checked : Adding → Prop
  | .free _ _ | .syncing _ => True
  | .certified dto _ => ∀ c, dto.certificateId = some c → dto.https.getD false = true
  | .inserting dto _ => ∀ c, dto.certificateId = some c →
      dto.https.getD false = true ∧ dto.certMode.getD .http = .http

/-- What the checks have found for a request that updates a domain. -/
def Updating.Checked (s : State) : Updating → Prop
  | .loaded domain _ | .syncing domain | .restoring domain => Copy s domain
  | .certified domain dto => Copy s domain ∧
      ∀ c, dto.certificateId = some (some c) → domain.https = true
  | .writing domain patch => Copy s domain ∧
      (∀ c, patch.certificateId = some (some c) → domain.https = true) ∧
      ((patch.apply domain).certMode = .http ∨ (patch.apply domain).certificateId = none)

structure Consistent (s : State) : Prop where
  covered : Covered lower s
  unique : (s.domains.map Domain.id).Nodup
  ids : ∀ d ∈ s.domains, d.id ∈ s.ids
  adding : ∀ n a, s.adding n = some a → a.Checked
  updating : ∀ n u, s.updating n = some u → u.Checked s

variable {lower} {s s' : State} {loaded d : Domain} {patch : Patch}

theorem Copy.of_domains (h : Copy s loaded) (hids : ∀ id ∈ s.ids, id ∈ s'.ids)
    (hdomains : ∀ d' ∈ s'.domains, d'.id ∈ s.ids →
      ∃ d ∈ s.domains, d.id = d'.id ∧ d.host = d'.host ∧ d.https = d'.https) : Copy s' loaded where
  known := hids _ h.known
  same d' hd' hid := by
    obtain ⟨d, hd, hid', hhost, hhttps⟩ := hdomains d' hd' (hid ▸ h.known)
    obtain ⟨hhost', hhttps'⟩ := h.same d hd (hid'.trans hid)
    exact ⟨hhost ▸ hhost', hhttps ▸ hhttps'⟩
  exclusive := h.exclusive

theorem Updating.Checked.of_domains {u : Updating} (h : u.Checked s) (hids : ∀ id ∈ s.ids, id ∈ s'.ids)
    (hdomains : ∀ d' ∈ s'.domains, d'.id ∈ s.ids →
      ∃ d ∈ s.domains, d.id = d'.id ∧ d.host = d'.host ∧ d.https = d'.https) : u.Checked s' := by
  cases u with
  | loaded domain dto => exact Copy.of_domains h hids hdomains
  | certified domain dto => exact ⟨h.1.of_domains hids hdomains, h.2⟩
  | writing domain patch => exact ⟨h.1.of_domains hids hdomains, h.2⟩
  | syncing domain => exact Copy.of_domains h hids hdomains
  | restoring domain => exact Copy.of_domains h hids hdomains

/-! ## What one write does -/

/-- **A patch of a served row.**  The row still serves what it may exactly when what the patch
was checked with is still so. -/
theorem serves_apply_iff (hserves : Serves lower s d) (hhttps : d.https = loaded.https)
    (hassigned : ∀ c, patch.certificateId = some (some c) → loaded.https = true)
    (hexclusive : (patch.apply loaded).certMode = .http ∨ (patch.apply loaded).certificateId = none) :
    Serves lower s (patch.apply d) ↔ Fresh lower s loaded patch d := by
  obtain ⟨certificateId, middlewares, certMode, dnsConnectionId, dnsProxied⟩ := patch
  rcases certificateId with _ | _ | c
  · -- the certificate is left as it is
    cases certMode with
    | none =>
      refine iff_of_true hserves ⟨?_, ?_, ?_⟩
      · intro c hc
        cases hc
      · intro c hc
        cases hc
      · intro m hm
        cases hm
    | some m =>
      by_cases hm : m = .http
      · subst hm
        refine iff_of_true ?_ ⟨?_, ?_, ?_⟩
        · intro c hc
          obtain ⟨hs, -, hcov⟩ := hserves c hc
          exact ⟨hs, rfl, hcov⟩
        · intro c hc
          cases hc
        · intro c hc
          cases hc
        · intro m hm hne
          exact absurd (some.inj hm).symm hne
      · have hloaded : loaded.certificateId = none := by
          rcases hexclusive with hmode | hnone
          · exact absurd hmode hm
          · exact hnone
        constructor
        · intro hafter
          refine ⟨fun c hc => by (cases hc), fun c hc => by (cases hc), ?_⟩
          intro m' _ _ _
          rw [hloaded]
          cases hcert : d.certificateId with
          | none => rfl
          | some c => exact absurd (hafter c hcert).2.1 hm
        · intro hfresh c hc
          have hnone := hfresh.certificate m rfl hm rfl
          rw [hloaded] at hnone
          rw [show d.certificateId = some c from hc] at hnone
          cases hnone
  · -- the certificate is taken off
    refine iff_of_true ?_ ⟨?_, ?_, ?_⟩
    · intro c hc
      cases hc
    · intro c hc
      cases hc
    · intro c hc
      cases hc
    · intro m _ _ hnone
      cases hnone
  · -- a certificate is assigned
    have hs : d.https = true := hhttps.trans (hassigned c rfl)
    have hmode : certMode.getD loaded.certMode = .http := by
      rcases hexclusive with hmode | hnone
      · exact hmode
      · cases hnone
    constructor
    · intro hafter
      obtain ⟨-, hafter, hcov⟩ := hafter c rfl
      refine ⟨?_, ?_, ?_⟩
      · intro c' hc'
        obtain rfl := some.inj (some.inj hc')
        exact hcov
      · rintro c' - rfl
        exact (show d.certMode = .http from hafter).trans hmode.symm
      · intro m _ _ hnone
        cases hnone
    · intro hfresh c' hc'
      obtain rfl := some.inj (show some c = some c' from hc')
      refine ⟨hs, ?_, hfresh.covers c rfl⟩
      cases certMode with
      | none => exact (hfresh.mode c rfl rfl).trans hmode
      | some m => exact hmode

theorem covered_patchRow_iff (hcovered : Covered lower s) (n : Nat) (u : Option Updating) (id : Nat) :
    Covered lower { s.update n u with domains := patchRow s.domains id patch } ↔
      ∀ d ∈ s.domains, d.id = id → Serves lower s (patch.apply d) := by
  show (∀ d ∈ patchRow s.domains id patch, Serves lower s d) ↔ _
  rw [patchRow, List.forall_mem_map]
  constructor
  · intro h d hd hid
    have hd' := h d hd
    rwa [if_pos hid] at hd'
  · intro h d hd
    split
    · rename_i hid
      exact h d hd hid
    · exact hcovered d hd

/-- The names of one certificate change. -/
theorem covered_renew_iff (hcovered : Covered lower s) (n id : Nat) (names : List JsString) :
    Covered lower { s.renew n none with
        certificates := Function.update s.certificates id (some names) } ↔
      ∀ d ∈ s.domains, d.certificateId = some id → domainMatches lower d.host names = true := by
  have hcovers : ∀ c host, State.covers lower { s.renew n none with
        certificates := Function.update s.certificates id (some names) } c host =
      if c = id then domainMatches lower host names else s.covers lower c host := by
    intro c host
    by_cases hc : c = id
    · subst hc
      simp [State.covers]
    · simp [State.covers, hc]
  simp only [Covered, Serves, hcovers]
  constructor
  · intro h d hd hid
    have hcov := (h d hd id hid).2.2
    rwa [if_pos rfl] at hcov
  · intro h d hd c hc
    obtain ⟨hs, hmode, hcov⟩ := hcovered d hd c hc
    refine ⟨hs, hmode, ?_⟩
    split
    · rename_i hid
      exact h d hd (hid ▸ hc)
    · exact hcov

variable {dto : AddDomainDto} {host : JsString}

/-- A domain is added. -/
theorem covered_insert_iff (hcovered : Covered lower s)
    (hchecked : (Adding.inserting dto host).Checked) (n id : Nat) (a : Option Adding) :
    Covered lower { s.add n a with domains := dto.row host id :: s.domains, ids := id :: s.ids } ↔
      ∀ c, dto.certificateId = some c → s.covers lower c host = true := by
  show (∀ d ∈ dto.row host id :: s.domains, Serves lower s d) ↔ _
  rw [forall_mem_cons]
  constructor
  · rintro ⟨hnew, -⟩ c hc
    exact (hnew c hc).2.2
  · intro h
    refine ⟨?_, hcovered⟩
    intro c hc
    obtain ⟨hs, hmode⟩ := hchecked c hc
    exact ⟨hs, hmode, h c hc⟩

/-! ## Runs -/

variable {n : Nat}

theorem Consistent.add (h : Consistent lower s) {a : Option Adding}
    (ha : ∀ x, a = some x → x.Checked) : Consistent lower (s.add n a) where
  covered := h.covered
  unique := h.unique
  ids := h.ids
  adding m x hm := by
    rcases Runs.update_eq_some hm with ⟨-, hnew⟩ | ⟨-, hold⟩
    · exact ha x hnew
    · exact h.adding m x hold
  updating m u hm := (h.updating m u hm).of_domains (fun _ hid => hid) fun d hd _ => ⟨d, hd, rfl, rfl, rfl⟩

theorem Consistent.update (h : Consistent lower s) {u : Option Updating}
    (hu : ∀ x, u = some x → x.Checked s) : Consistent lower (s.update n u) where
  covered := h.covered
  unique := h.unique
  ids := h.ids
  adding := h.adding
  updating m x hm := by
    have hchecked : x.Checked s := by
      rcases Runs.update_eq_some hm with ⟨-, hnew⟩ | ⟨-, hold⟩
      · exact hu x hnew
      · exact h.updating m x hold
    exact hchecked.of_domains (fun _ hid => hid) fun d hd _ => ⟨d, hd, rfl, rfl, rfl⟩

theorem Consistent.renew (h : Consistent lower s) (n : Nat) (r : Option Renewing) :
    Consistent lower (s.renew n r) where
  covered := h.covered
  unique := h.unique
  ids := h.ids
  adding := h.adding
  updating m u hm := (h.updating m u hm).of_domains (fun _ hid => hid) fun d hd _ => ⟨d, hd, rfl, rfl, rfl⟩

variable {id : Nat}

/-- A row that was patched is still the row of its domain. -/
theorem Consistent.patched (h : Consistent lower s) (p : Patch)
    (hcovered : Covered lower { s with domains := patchRow s.domains id p }) :
    Consistent lower { s with domains := patchRow s.domains id p } where
  covered := hcovered
  unique := by
    have hkeys : (patchRow s.domains id p).map Domain.id = s.domains.map Domain.id := by
      unfold patchRow
      rw [List.map_map]
      apply map_congr_left
      intro d _
      by_cases hd : d.id = id
      · simp [hd, Patch.apply]
      · simp [hd]
    exact hkeys ▸ h.unique
  ids d hd := by
    obtain ⟨q, hq, rfl⟩ := mem_map.mp hd
    split
    · exact h.ids q hq
    · exact h.ids q hq
  adding := h.adding
  updating m u hm := by
    refine (h.updating m u hm).of_domains (fun _ hid => hid) ?_
    intro d hd _
    obtain ⟨q, hq, rfl⟩ := mem_map.mp hd
    refine ⟨q, hq, ?_⟩
    split
    · exact ⟨rfl, rfl, rfl⟩
    · exact ⟨rfl, rfl, rfl⟩

theorem Consistent.inserted (h : Consistent lower s) {dto : AddDomainDto} {host : JsString} {id : Nat}
    (hfresh : id ∉ s.ids)
    (hcovered : Covered lower { s with domains := dto.row host id :: s.domains, ids := id :: s.ids }) :
    Consistent lower { s with domains := dto.row host id :: s.domains, ids := id :: s.ids } where
  covered := hcovered
  unique := by
    refine nodup_cons.mpr ⟨?_, h.unique⟩
    intro hmem
    obtain ⟨d, hd, hid⟩ := mem_map.mp hmem
    exact hfresh ((show d.id = id from hid) ▸ h.ids d hd)
  ids d hd := by
    rcases mem_cons.mp hd with rfl | hold
    · exact mem_cons_self
    · exact mem_cons_of_mem _ (h.ids d hold)
  adding := h.adding
  updating m u hm := by
    refine (h.updating m u hm).of_domains (fun _ hid => mem_cons_of_mem _ hid) ?_
    intro d hd hid
    rcases mem_cons.mp hd with rfl | hold
    · exact absurd hid hfresh
    · exact ⟨d, hold, rfl, rfl, rfl⟩

theorem Consistent.removed (h : Consistent lower s) (id : Nat) :
    Consistent lower { s with domains := s.domains.filter fun d => d.id ≠ id } where
  covered d hd := h.covered d (mem_filter.mp hd).1
  unique := h.unique.sublist (Sublist.map _ filter_sublist)
  ids d hd := h.ids d (mem_filter.mp hd).1
  adding := h.adding
  updating m u hm := (h.updating m u hm).of_domains (fun _ hid => hid)
    fun d hd _ => ⟨d, (mem_filter.mp hd).1, rfl, rfl, rfl⟩

theorem certificatePasses_some {c : Nat} {check : List JsString → Except JsString Unit}
    (h : certificatePasses s (some c) check = true) : ∃ names, check names = .ok () := by
  obtain ⟨names, -, hpass⟩ := (any_eq_true _ _).mp h
  cases hcheck : check names with
  | error e => simp [passes, hcheck, Except.toOption] at hpass
  | ok u => exact ⟨names, hcheck⟩

variable {domain : Domain}

/-- A request that writes a row has found what its patch needs. -/
theorem Consistent.fresh_iff (h : Consistent lower s) {p : Patch}
    (hn : s.updating n = some (.writing domain p)) (u : Option Updating) :
    Covered lower { s.update n u with domains := patchRow s.domains domain.id p } ↔
      ∀ d ∈ s.domains, d.id = domain.id → Fresh lower s domain p d := by
  obtain ⟨hcopy, hassigned, hexclusive⟩ := h.updating n _ hn
  rw [covered_patchRow_iff h.covered]
  refine forall_congr' fun d => forall_congr' fun hd => forall_congr' fun hid => ?_
  exact serves_apply_iff (h.covered d hd) (hcopy.same d hd hid).2 hassigned hexclusive

/-- What a request puts back is served when the certificate still covers the host. -/
theorem Consistent.restore_iff (h : Consistent lower s)
    (hn : s.updating n = some (.restoring domain)) (u : Option Updating) :
    Covered lower { s.update n u with
        domains := patchRow s.domains domain.id (Domains.restore domain) } ↔
          ∀ d ∈ s.domains, d.id = domain.id → ∀ c, domain.certificateId = some c →
      s.covers lower c d.host = true := by
  have hcopy : Copy s domain := h.updating n _ hn
  have hassigned : ∀ c, (restore domain).certificateId = some (some c) → domain.https = true :=
    fun c hc => (hcopy.exclusive c (some.inj hc)).1
  have hexclusive : ((restore domain).apply domain).certMode = .http ∨
      ((restore domain).apply domain).certificateId = none := by
    cases hcert : domain.certificateId with
    | none => exact Or.inr hcert
    | some c => exact Or.inl (hcopy.exclusive c hcert).2
  rw [covered_patchRow_iff h.covered]
  refine forall_congr' fun d => forall_congr' fun hd => forall_congr' fun hid => ?_
  rw [serves_apply_iff (h.covered d hd) (hcopy.same d hd hid).2 hassigned hexclusive]
  constructor
  · intro hfresh c hc
    exact hfresh.covers c (congrArg some hc)
  · intro hcov
    refine ⟨fun c hc => hcov c (some.inj hc), ?_, ?_⟩
    · intro c _ hnone
      cases hnone
    · intro m _ _ hnone
      cases hnone

/-! ### What the checks establish -/

/-- A certificate is checked for an https domain only. -/
theorem Adding.certified_checked
    (hpass : certificatePasses s dto.certificateId (dto.checkCertificate lower host) = true) :
    (Adding.certified dto host).Checked := by
  intro c hc
  rw [hc] at hpass
  obtain ⟨names, hcheck⟩ := certificatePasses_some hpass
  unfold AddDomainDto.checkCertificate at hcheck
  split at hcheck
  · cases hcheck
  · simpa using ‹¬(!dto.https.getD false) = true›

variable {proxyHasDns connectionExists : Bool}

/-- A domain with a certificate is not added in another mode. -/
theorem Adding.Checked.inserting (h : (Adding.certified dto host).Checked)
    (hpass : passes (dto.checkRest lower host proxyHasDns connectionExists) = true) :
    (Adding.inserting dto host).Checked := by
  intro c hc
  refine ⟨h c hc, ?_⟩
  cases hmode : assertCertMode lower (dto.certMode.getD .http) host (dto.https.getD false)
      dto.certificateId.isSome proxyHasDns with
  | error e => simp [passes, AddDomainDto.checkRest, hmode, bind, Except.bind, Except.toOption] at hpass
  | ok u =>
    rcases assertCertMode_ok hmode with hhttp | hnone
    · exact hhttp
    · rw [hc] at hnone
      cases hnone

/-- A request that updates a domain has a copy of its row. -/
theorem Consistent.copy (h : Consistent lower s)
    (hfind : s.domains.find? (fun d => d.id = id) = some domain) : Copy s domain := by
  have hmem := List.mem_of_find?_eq_some hfind
  refine ⟨h.ids domain hmem, ?_, ?_⟩
  · intro d hd hid
    obtain rfl := inj_on_of_nodup_map h.unique hd hmem hid
    exact ⟨rfl, rfl⟩
  · intro c hc
    obtain ⟨hs, hmode, -⟩ := h.covered domain hmem c hc
    exact ⟨hs, hmode⟩

variable {dto : UpdateDomainDto}

theorem Updating.Checked.certified (h : (Updating.loaded domain dto).Checked s)
    (hpass : certificatePasses s dto.assigned (checkCertificate lower domain) = true) :
    (Updating.certified domain dto).Checked s := by
  refine ⟨h, ?_⟩
  intro c hc
  rw [UpdateDomainDto.assigned, hc] at hpass
  obtain ⟨names, hcheck⟩ := certificatePasses_some hpass
  unfold checkCertificate at hcheck
  split at hcheck
  · cases hcheck
  · simpa using ‹¬(!domain.https) = true›

theorem Updating.Checked.writing (h : (Updating.certified domain dto).Checked s)
    (hplan : planUpdate domain dto lower proxyHasDns connectionExists = .ok (some patch)) :
    (Updating.writing domain patch).Checked s := by
  obtain ⟨hcopy, hhttps⟩ := h
  refine ⟨hcopy, ?_, planned_exclusive hplan⟩
  intro c hc
  exact hhttps c (planned_certificate hplan hc)

/-! ### One step -/

variable {a : Action}

theorem Consistent.step (h : Consistent lower s) (ha : StillChecked lower s a)
    (hstep : step lower s a = some s') : Consistent lower s' := by
  cases a with
  | add n dto =>
    simp only [Domains.step] at hstep
    split at hstep
    · cases hstep
    · split at hstep
      · cases hstep
        exact h
      · cases hstep
        refine h.add fun x hx => ?_
        obtain rfl := some.inj hx
        trivial
  | addCertificate n =>
    simp only [Domains.step] at hstep
    split at hstep
    · rename_i dto host hn
      split at hstep
      · rename_i hpass
        cases hstep
        refine h.add fun x hx => ?_
        obtain rfl := some.inj hx
        exact Adding.certified_checked hpass
      · cases hstep
        exact h.add fun x hx => by (cases hx)
    · cases hstep
  | addRest n proxyHasDns connectionExists =>
    simp only [Domains.step] at hstep
    split at hstep
    · rename_i dto host hn
      split at hstep
      · rename_i hpass
        cases hstep
        refine h.add fun x hx => ?_
        obtain rfl := some.inj hx
        exact (h.adding n _ hn).inserting hpass
      · cases hstep
        exact h.add fun x hx => by (cases hx)
    · cases hstep
  | insert n id =>
    simp only [Domains.step] at hstep
    split at hstep
    · rename_i dto host hn
      split at hstep
      · cases hstep
      · rename_i hfresh
        split at hstep
        · cases hstep
          exact h.add fun x hx => by (cases hx)
        · rename_i hfree
          cases hstep
          refine Consistent.inserted (h.add ?_) hfresh ?_
          · intro x hx
            obtain ⟨c, -, rfl⟩ := map_eq_some_iff.mp hx
            trivial
          · exact (covered_insert_iff h.covered (h.adding n _ hn) n id _).mpr fun c =>
              ha dto host c hn hfresh (by simpa using hfree)
    · cases hstep
  | addSynced n ok =>
    simp only [Domains.step] at hstep
    split at hstep
    · have hadd : Consistent lower (s.add n none) := h.add fun x hx => by (cases hx)
      split at hstep
      · cases hstep
        exact hadd
      · cases hstep
        exact hadd.removed _
    · cases hstep
  | update n id dto =>
    simp only [Domains.step] at hstep
    split at hstep
    · cases hstep
    · split at hstep
      · cases hstep
        exact h
      · rename_i domain hfind
        split at hstep
        · cases hstep
          exact h
        · cases hstep
          refine h.update fun x hx => ?_
          obtain rfl := some.inj hx
          exact h.copy hfind
  | updateCertificate n =>
    simp only [Domains.step] at hstep
    split at hstep
    · rename_i domain dto hn
      split at hstep
      · rename_i hpass
        cases hstep
        refine h.update fun x hx => ?_
        obtain rfl := some.inj hx
        exact (h.updating n _ hn).certified hpass
      · cases hstep
        exact h.update fun x hx => by (cases hx)
    · cases hstep
  | updateRest n middlewaresExist proxyHasDns connectionExists =>
    simp only [Domains.step] at hstep
    split at hstep
    · rename_i domain dto hn
      split at hstep
      · cases hstep
        exact h.update fun x hx => by (cases hx)
      · split at hstep
        · rename_i patch hplan
          cases hstep
          refine h.update fun x hx => ?_
          obtain rfl := some.inj hx
          exact (h.updating n _ hn).writing hplan
        · cases hstep
          exact h.update fun x hx => by (cases hx)
        · cases hstep
          exact h.update fun x hx => by (cases hx)
    · cases hstep
  | write n =>
    simp only [Domains.step] at hstep
    split at hstep
    · rename_i domain patch hn
      cases hstep
      refine Consistent.patched (h.update ?_) patch ?_
      · intro x hx
        obtain ⟨c, -, rfl⟩ := map_eq_some_iff.mp hx
        exact (h.updating n _ hn).1
      · exact (h.fresh_iff hn _).mpr (ha domain patch hn)
    · cases hstep
  | updateSynced n ok =>
    simp only [Domains.step] at hstep
    split at hstep
    · rename_i domain hn
      split at hstep
      · cases hstep
        exact h.update fun x hx => by (cases hx)
      · cases hstep
        refine h.update fun x hx => ?_
        obtain rfl := some.inj hx
        exact h.updating n (.syncing domain) hn
    · cases hstep
  | restore n =>
    simp only [Domains.step] at hstep
    split at hstep
    · rename_i domain hn
      cases hstep
      refine Consistent.patched (h.update fun x hx => by (cases hx)) (Domains.restore domain) ?_
      exact (h.restore_iff hn none).mpr (ha domain hn)
    · cases hstep
  | renew n id names =>
    simp only [Domains.step] at hstep
    split at hstep
    · cases hstep
    · split at hstep
      · cases hstep
        exact h
      · cases hstep
        exact h.renew n _
  | renewCheck n =>
    simp only [Domains.step] at hstep
    split at hstep
    · split at hstep
      · cases hstep
        exact h.renew n _
      · cases hstep
        exact h.renew n _
    · cases hstep
  | renewSave n =>
    simp only [Domains.step] at hstep
    split at hstep
    · rename_i id names hn
      cases hstep
      have hcovered := (covered_renew_iff h.covered n id names).mpr (ha id names hn)
      exact ⟨hcovered, h.unique, h.ids, h.adding, fun m u hm => (h.updating m u hm).of_domains
        (fun _ hid => hid) fun d hd _ => ⟨d, hd, rfl, rfl, rfl⟩⟩
    · cases hstep

/-- A write whose checks no longer hold leaves a domain that serves what it may not. -/
theorem Consistent.breaks (h : Consistent lower s) (ha : ¬ StillChecked lower s a) :
    ∃ s', Domains.step lower s a = some s' ∧ ¬ Covered lower s' := by
  cases a with
  | insert n id =>
    simp only [StillChecked, not_forall] at ha
    obtain ⟨dto, host, c, hn, hfresh, hfree, hc, hnot⟩ := ha
    refine ⟨{ s.add n (dto.certificateId.map fun _ => .syncing id) with
      domains := dto.row host id :: s.domains, ids := id :: s.ids }, ?_, ?_⟩
    · simp only [Domains.step, hn, if_neg hfresh, hfree, Bool.false_eq_true, if_false]
    · intro hcovered
      exact hnot ((covered_insert_iff h.covered (h.adding n _ hn) n id _).mp hcovered c hc)
  | write n =>
    simp only [StillChecked, not_forall] at ha
    obtain ⟨domain, patch, hn, hnot⟩ := ha
    refine ⟨{ s.update n (patch.certificateId.map fun _ => .syncing domain) with
      domains := patchRow s.domains domain.id patch }, ?_, ?_⟩
    · simp only [Domains.step, hn]
    · intro hcovered
      obtain ⟨d, hd, hid, hnot⟩ := hnot
      exact hnot ((h.fresh_iff hn _).mp hcovered d hd hid)
  | restore n =>
    simp only [StillChecked, not_forall] at ha
    obtain ⟨domain, hn, d, hd, hid, c, hc, hnot⟩ := ha
    refine ⟨{ s.update n none with domains := patchRow s.domains domain.id (Domains.restore domain) },
      ?_, ?_⟩
    · simp only [Domains.step, hn]
    · intro hcovered
      exact hnot ((h.restore_iff hn none).mp hcovered d hd hid c hc)
  | renewSave n =>
    simp only [StillChecked, not_forall] at ha
    obtain ⟨id, names, hn, d, hd, hid, hnot⟩ := ha
    refine ⟨{ s.renew n none with certificates := Function.update s.certificates id (some names) },
      ?_, ?_⟩
    · simp only [Domains.step, hn]
    · intro hcovered
      exact hnot ((covered_renew_iff h.covered n id names).mp hcovered d hd hid)
  | _ => exact absurd trivial ha

theorem consistent_initial {domains : List Domain} {certificates : Nat → Option (List JsString)}
    (hids : (domains.map Domain.id).Nodup) (hcovered : Covered lower (initial domains certificates)) :
    Consistent lower (initial domains certificates) where
  covered := hcovered
  unique := hids
  ids d hd := mem_map_of_mem hd
  adding n a h := by cases h
  updating n u h := by cases h

/-- **Domains serve what they may** in every state of a run exactly when every write is made
while what was checked for it is still so. -/
theorem covered_iff (lower : JsString → JsString) (domains : List Domain)
    (certificates : Nat → Option (List JsString)) (hids : (domains.map Domain.id).Nodup)
    (hcovered : Covered lower (initial domains certificates)) (as : List Action) :
    Runs.Throughout (step lower) (Covered lower) (initial domains certificates) as ↔
      Runs.Meets (step lower) (StillChecked lower) (initial domains certificates) as :=
  Runs.throughout_iff_meets (fun _ _ _ h ha hstep => h.step ha hstep) (fun _ h => h.covered)
    (fun _ _ h ha => h.breaks ha) as (initial domains certificates) (consistent_initial hids hcovered)

def oneDomain : List Domain := [⟨1, js "app.example.org", true, none, [], .http, none, false⟩]

def oneCertificate (c : Nat) : Option (List JsString) :=
  if c = 5 then some [js "*.example.org"] else none

/-- A request that assigns the certificate. -/
def assign : UpdateDomainDto := ⟨some (some 5), none, none, none, none, none⟩

theorem covered_oneDomain : Covered toLowerCase (initial oneDomain oneCertificate) := by
  intro d hd c hc
  obtain rfl := mem_singleton.mp hd
  cases hc

/-- A wildcard certificate is assigned to a domain. -/
theorem covered_assign :
    (oneDomain.map Domain.id).Nodup ∧ Covered toLowerCase (initial oneDomain oneCertificate) ∧
      Runs.Throughout (step toLowerCase) (Covered toLowerCase) (initial oneDomain oneCertificate)
        [.update 1 1 assign, .updateCertificate 1, .updateRest 1 true true true, .write 1] := by
  refine ⟨by decide, covered_oneDomain, ?_⟩
  refine (covered_iff toLowerCase oneDomain oneCertificate (by decide) covered_oneDomain _).mpr ?_
  refine Runs.meets_cons rfl trivial (Runs.meets_cons rfl trivial (Runs.meets_cons rfl trivial ?_))
  refine Runs.meets_cons rfl ?_ trivial
  intro domain patch hn d hd hid
  obtain rfl := List.mem_singleton.mp hd
  cases hn
  refine ⟨?_, ?_, ?_⟩
  · intro c hc
    cases hc
    decide
  · intro c _ _
    rfl
  · intro m hm
    cases hm

/-- The certificate gets other names between the check and the write. -/
theorem certificate_renewed_meanwhile :
    ¬ ∀ (as : List Action) (s : State),
      Runs.exec (step toLowerCase) (initial oneDomain oneCertificate) as = some s →
        Covered toLowerCase s := by
  intro h
  have hcovered := h [.update 1 1 assign, .updateCertificate 1, .updateRest 1 true true true,
    .renew 1 5 [js "www.example.com"], .renewCheck 1, .renewSave 1, .write 1] _ rfl
  have hserves := (hcovered _ List.mem_cons_self 5 rfl).2.2
  exact absurd hserves (by decide)

end Aoox.Domains
