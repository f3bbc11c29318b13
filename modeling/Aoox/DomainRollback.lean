import Aoox.DomainCertificates
import Aoox.DnsRecords

/-! # Requests on domains that fail half-way

A request that adds or updates a domain writes its row first and then reaches the proxy: it
looks the server up, asks for the proxy's status, provisions a proxy that is not running, and
writes the certificates.  Any of these steps may fail, and only a failure of the last one is
answered by a compensating write.

So a new row stays behind when an earlier step fails (`added_iff`), and an update then keeps
what it has written; what it puts back after a failed sync leaves out the columns of the DNS
record (`updated_iff`).
-/
namespace Aoox.Domains
open JsString
open Dns (ManagedRecord DnsSyncOutcome)

/-! ## The table -/

/-- A row with what is kept of its DNS record. -/
structure DomainRow extends Domain where
  dnsRecords : List ManagedRecord
  dnsStatus : Option Dns.Status
  dnsMessage : Option JsString
  deriving DecidableEq

/-- The columns an update writes, the ones of the DNS record included. -/
structure RowPatch extends Patch where
  dnsRecords : Option (List ManagedRecord)
  dnsStatus : Option (Option Dns.Status)
  dnsMessage : Option (Option JsString)

def RowPatch.apply (p : RowPatch) (r : DomainRow) : DomainRow where
  toDomain := p.toPatch.apply r.toDomain
  dnsRecords := p.dnsRecords.getD r.dnsRecords
  dnsStatus := p.dnsStatus.getD r.dnsStatus
  dnsMessage := p.dnsMessage.getD r.dnsMessage

structure DomainTable where
  rows : List DomainRow
  ids : rows.Pairwise fun r r' => r.id ≠ r'.id

def DomainTable.find (t : DomainTable) (id : Nat) : Option DomainRow :=
    t.rows.find? fun r => r.id = id

/-- An id that the database generates. -/
def DomainTable.Fresh (t : DomainTable) : Type := { id : Nat // ∀ r ∈ t.rows, r.id ≠ id }

def DomainTable.insert (t : DomainTable) (r : DomainRow) (h : ∀ q ∈ t.rows, q.id ≠ r.id) :
    DomainTable where
  rows := t.rows ++ [r]
  ids := List.pairwise_append.mpr ⟨t.ids, List.pairwise_singleton _ _, by simpa using h⟩

def DomainTable.remove (t : DomainTable) (id : Nat) : DomainTable where
  rows := t.rows.filter fun r => r.id ≠ id
  ids := t.ids.sublist List.filter_sublist

/-- `update(id, patch)`. -/
def DomainTable.patch (t : DomainTable) (id : Nat) (p : RowPatch) : DomainTable where
  rows := t.rows.map fun r => if r.id = id then p.apply r else r
  ids := by
    refine List.pairwise_map.mpr (t.ids.imp fun {r r'} h => ?_)
    split <;> split <;> exact h

/-! ## Reaching the proxy -/

/-- How each step towards the proxy ends. -/
structure ProxySteps where
  (forServer findOrFail : Except JsString Unit)
  /-- Whether the proxy runs. -/
  statusOn : Except JsString Bool
  (provisionOn sync : Except JsString Unit)

/-- `if (c) await x`. -/
def onlyIf (c : Bool) (x : Except JsString Unit) : Except JsString Unit := if c then x else pure ()

/-- The steps before the certificates are written; `routes` when a proxy has to run. -/
def ProxySteps.reach (p : ProxySteps) (remote routes : Bool) : Except JsString Unit := do
  p.forServer
  onlyIf remote p.findOrFail
  onlyIf routes do
    let running ← p.statusOn
    onlyIf (!running) p.provisionOn

/-- How a request ends; an error of the labels comes behind all its writes. -/
inductive End where
  | returned
  | failed (error : JsString)
  | labelsFailed (error : JsString)

def End.ofLabels : Except JsString Unit → End
  | .ok () => .returned
  | .error e => .labelsFailed e

/-- What `domainDns.sync` stores. -/
def outcomePatch (o : DnsSyncOutcome) : RowPatch where
  certificateId := none
  middlewares := none
  certMode := none
  dnsConnectionId := none
  dnsProxied := none
  dnsRecords := some o.records
  dnsStatus := some (some o.status)
  dnsMessage := some (some o.message)

/-- What else a request is answered. -/
structure Answers where
  lower : JsString → JsString
  certificate : Nat → Except JsString (List JsString)
  middlewaresExist : Except JsString Unit
  (proxyHasDns connectionExists : Bool)
  /-- What could not be removed of the old connection's records. -/
  cleanup : Option JsString
  outcome : DnsSyncOutcome
  labels : Except JsString Unit

/-! ## Adding a domain -/

namespace AddDomain
variable (a : Answers) (p : ProxySteps) (remote : Bool) (dto : AddDomainDto)

def hostOf : JsString := a.lower (trim dto.host)

/-- The checks before the row is written. -/
def checks (t : DomainTable) : Except JsString Unit := do
  let host := hostOf a dto
  if t.rows.any fun r => r.host = host then
    throw (host ++ js " is already used by another application")
  if let some c := dto.certificateId then
    dto.checkCertificate a.lower host (← a.certificate c)
  dto.checkRest a.lower host a.proxyHasDns a.connectionExists

def row (id : Nat) : DomainRow where
  toDomain := dto.row (hostOf a dto) id
  dnsRecords := []
  dnsStatus := none
  dnsMessage := none

/-- From the certificates in the proxy on: the DNS record, and the labels. -/
def finish (id : Nat) (t : DomainTable) : End × DomainTable :=
  (.ofLabels a.labels, if dto.dnsConnectionId.isSome then t.patch id (outcomePatch a.outcome) else t)

def execute (t : DomainTable) (id : t.Fresh) : End × DomainTable :=
  match checks a dto t with
  | .error e => (.failed e, t)
  | .ok () =>
    let added := t.insert (row a dto id.1) id.2
    match p.reach remote true with
    | .error e => (.failed e, added)
    | .ok () =>
      if dto.certificateId.isSome then
        match p.sync with
        | .error _ =>
          (.failed (js "The certificate could not be written to the proxy, " ++
            js "so the domain was not added; try again"), added.remove id.1)
        | .ok () => finish a dto id.1 added
      else finish a dto id.1 added

end AddDomain

/-! ## Updating a domain -/

namespace UpdateDomain
variable (a : Answers) (p : ProxySteps) (remote : Bool) (dto : UpdateDomainDto)

/-- The certificate the request assigns, if any, is looked up and checked. -/
def checkAssigned (domain : Domain) : Except JsString Unit :=
  match dto.assigned with
  | some c => a.certificate c >>= checkCertificate a.lower domain
  | none => pure ()

/-- The checks and the plan before the row is written. -/
def plan (domain : Domain) : Except JsString (Option Patch) := do
  onlyIf dto.isEmpty
    (throw (js "Send certificateId, middlewares, certMode and/or dnsConnectionId"))
  checkAssigned a dto domain
  onlyIf dto.wanted.isSome a.middlewaresExist
  planUpdate domain dto a.lower a.proxyHasDns a.connectionExists

/-- The columns of a detached connection's records are cleared. -/
def written (domain : DomainRow) (planned : Patch) : RowPatch :=
  let detached := nextDnsConnection domain.toDomain dto ≠ domain.dnsConnectionId &&
    domain.dnsConnectionId.isSome
  { planned with
    dnsRecords := if detached then some [] else none
    dnsStatus := if detached then some none else none
    dnsMessage := if detached then some a.cleanup else none }

/-- What is put back. -/
def restored (domain : Domain) : RowPatch :=
  { restore domain with dnsRecords := none, dnsStatus := none, dnsMessage := none }

/-- The certificate of the domain changes, so the proxy has to be told. -/
def tellsProxy (domain : Domain) : Bool :=
  domain.certificateId ≠ nextCertificateId domain dto &&
    (dto.assigned.isSome || domain.certificateId.isSome)

def finish (domain : DomainRow) (planned : Patch) (t : DomainTable) : End × DomainTable :=
  let synced :=
    if (nextDnsConnection domain.toDomain dto).isSome && dnsTouched domain.toDomain dto then
      t.patch domain.id (outcomePatch a.outcome)
    else t
  if planned.certificateId.isSome || planned.middlewares.isSome || planned.certMode.isSome then
    (.ofLabels a.labels, synced)
  else (.returned, synced)

/-- The certificates are written to the proxy, behind the write to the row. -/
def tellProxy (domain : DomainRow) (planned : Patch) (t : DomainTable) : End × DomainTable :=
  match p.reach remote dto.assigned.isSome with
  | .error e => (.failed e, t)
  | .ok () =>
    match p.sync with
    | .error _ =>
      (.failed (js "The certificate could not be written to the proxy, " ++
        js "so the domain was left unchanged; try again"),
        t.patch domain.id (restored domain.toDomain))
    | .ok () => finish a dto domain planned t

def execute (id : Nat) (t : DomainTable) : End × DomainTable :=
  match t.find id with
  | none => (.failed (js "Domain not found"), t)
  | some domain =>
    match plan a dto domain.toDomain with
    | .error e => (.failed e, t)
    | .ok none => (.returned, t)
    | .ok (some planned) =>
      let t' := t.patch id (written a dto domain planned)
      if tellsProxy dto domain.toDomain then tellProxy a p remote dto domain planned t'
      else finish a dto domain planned t'

end UpdateDomain

/-! ## What a failure leaves -/

/-- A request that failed before the labels has left the table as it was. -/
def LeavesTable (r : End × DomainTable) (t : DomainTable) : Prop := ∀ e, r.1 = .failed e → r.2 = t

def Succeeds {α : Type} (x : Except JsString α) : Prop := ∃ v, x = .ok v

/-- None of the steps that are taken fails. -/
def ProxySteps.Reachable (p : ProxySteps) (remote routes : Bool) : Prop :=
  Succeeds p.forServer ∧ (remote = true → Succeeds p.findOrFail) ∧
    (routes = true → Succeeds p.statusOn ∧ (p.statusOn = .ok false → Succeeds p.provisionOn))

theorem bind_eq_ok {α β : Type} {x : Except JsString α} {f : α → Except JsString β} {b : β} :
    x >>= f = .ok b ↔ ∃ v, x = .ok v ∧ f v = .ok b := by
  cases x with
  | error e =>
    constructor
    · intro h
      cases h
    · rintro ⟨v, h, -⟩
      cases h
  | ok v =>
    constructor
    · exact fun h => ⟨v, rfl, h⟩
    · rintro ⟨w, hw, h⟩
      cases hw
      exact h

theorem onlyIf_eq_ok {c : Bool} {x : Except JsString Unit} :
    onlyIf c x = .ok () ↔ (c = true → Succeeds x) := by
  cases c with
  | true =>
    constructor
    · exact fun h _ => ⟨(), h⟩
    · intro h
      obtain ⟨_, hx⟩ := h rfl
      exact hx
  | false =>
    constructor
    · intro _ h
      cases h
    · exact fun _ => rfl

theorem reach_eq_ok_iff {p : ProxySteps} {remote routes : Bool} :
    p.reach remote routes = .ok () ↔ p.Reachable remote routes := by
  have hproxy : Succeeds (p.statusOn >>= fun running => onlyIf (!running) p.provisionOn) ↔
      Succeeds p.statusOn ∧ (p.statusOn = .ok false → Succeeds p.provisionOn) := by
    constructor
    · rintro ⟨_, h⟩
      obtain ⟨running, hstatus, hrest⟩ := bind_eq_ok.mp h
      refine ⟨⟨running, hstatus⟩, fun hfalse => ?_⟩
      obtain rfl : running = false := Except.ok.inj (hstatus.symm.trans hfalse)
      exact onlyIf_eq_ok.mp hrest rfl
    · rintro ⟨⟨running, hstatus⟩, hprovision⟩
      refine ⟨(), bind_eq_ok.mpr ⟨running, hstatus, onlyIf_eq_ok.mpr fun hnot => ?_⟩⟩
      exact hprovision (hstatus.trans (congrArg Except.ok (by simpa using hnot)))
  unfold ProxySteps.reach ProxySteps.Reachable
  rw [bind_eq_ok]
  constructor
  · rintro ⟨_, hserver, h⟩
    obtain ⟨_, hfind, hrest⟩ := bind_eq_ok.mp h
    exact ⟨⟨_, hserver⟩, onlyIf_eq_ok.mp hfind, fun hroutes =>
      hproxy.mp (onlyIf_eq_ok.mp hrest hroutes)⟩
  · rintro ⟨⟨_, hserver⟩, hfind, hrest⟩
    exact ⟨_, hserver, bind_eq_ok.mpr ⟨_, onlyIf_eq_ok.mpr hfind,
      onlyIf_eq_ok.mpr fun hroutes => hproxy.mpr (hrest hroutes)⟩⟩

variable {t : DomainTable}

theorem DomainTable.ext_rows {t' : DomainTable} (h : t.rows = t'.rows) : t = t' := by
  cases t
  cases t'
  cases h
  rfl

theorem remove_insert (t : DomainTable) (r : DomainRow) (h : ∀ q ∈ t.rows, q.id ≠ r.id) :
    (t.insert r h).remove r.id = t := by
  refine DomainTable.ext_rows ?_
  simp only [DomainTable.remove, DomainTable.insert, List.filter_append]
  rw [List.filter_eq_self.mpr (by simpa using h)]
  simp

theorem insert_ne (t : DomainTable) (r : DomainRow) (h : ∀ q ∈ t.rows, q.id ≠ r.id) :
    t.insert r h ≠ t := fun heq => by
  have hlen := congrArg (fun t => t.rows.length) heq
  simp [DomainTable.insert] at hlen

variable {r : DomainRow}

theorem find_spec {id : Nat} (h : t.find id = some r) :
    r ∈ t.rows ∧ r.id = id ∧ ∀ q ∈ t.rows, q.id = id → q = r := by
  have hmem := List.mem_of_find?_eq_some h
  have hid : r.id = id := by simpa using List.find?_some h
  refine ⟨hmem, hid, fun q hq hqid => ?_⟩
  exact List.inj_on_of_nodup_map (List.pairwise_map.mpr t.ids) hq hmem (hqid.trans hid.symm)

/-- A change of one row leaves the rows alone exactly when it leaves that row alone. -/
theorem map_rows_eq_iff {id : Nat} (h : t.find id = some r) (f : DomainRow → DomainRow) :
    (t.rows.map fun q => if q.id = id then f q else q) = t.rows ↔ f r = r := by
  obtain ⟨hmem, hid, honly⟩ := find_spec h
  conv_lhs => rhs; rw [← List.map_id t.rows]
  rw [List.map_inj_left]
  constructor
  · intro hall
    have hr := hall r hmem
    rwa [if_pos hid] at hr
  · intro hr q hq
    by_cases hqid : q.id = id
    · rw [if_pos hqid, honly q hq hqid, hr]
      rfl
    · rw [if_neg hqid]
      rfl

theorem patch_eq_iff {id : Nat} (h : t.find id = some r)
    (p : RowPatch) : t.patch id p = t ↔ p.apply r = r := by
  rw [← map_rows_eq_iff h p.apply]
  exact ⟨congrArg DomainTable.rows, fun hrows => DomainTable.ext_rows hrows⟩

theorem patch_patch_eq_iff {id : Nat} (h : t.find id = some r)
    (p q : RowPatch) : (t.patch id p).patch id q = t ↔ q.apply (p.apply r) = r := by
  have hrows : ((t.patch id p).patch id q).rows =
      t.rows.map fun r => if r.id = id then q.apply (p.apply r) else r := by
    simp only [DomainTable.patch, List.map_map]
    refine List.map_congr_left fun r _ => ?_
    by_cases hr : r.id = id
    · have hp : (p.apply r).id = id := hr
      simp [hr, hp]
    · simp [hr]
  rw [← map_rows_eq_iff h fun r => q.apply (p.apply r), ← hrows]
  exact ⟨congrArg DomainTable.rows, fun hrows => DomainTable.ext_rows hrows⟩

/-! ## A domain is added -/

namespace AddDomain
variable {a : Answers} {p : ProxySteps} {remote : Bool} {dto : AddDomainDto} {t : DomainTable}

theorem not_failed_finish (id : Nat) (t : DomainTable) (e : JsString) :
    (finish a dto id t).1 ≠ .failed e := by
  unfold finish
  cases a.labels <;> simp [End.ofLabels]

/-- **Nothing stays behind of a request that is refused, or whose proxy is reached.** -/
theorem leavesTable_iff (id : t.Fresh) : LeavesTable (execute a p remote dto t id) t ↔
      (checks a dto t = .ok () → p.Reachable remote true) := by
  rw [← reach_eq_ok_iff]
  unfold execute
  cases hchecks : checks a dto t with
  | error e => exact ⟨fun _ h => (by cases h), fun _ _ _ => rfl⟩
  | ok u =>
    cases hreach : p.reach remote true with
    | error e =>
      constructor
      · intro h
        exact absurd (h e rfl) (insert_ne t _ id.2)
      · intro h
        cases h rfl
    | ok u =>
      refine ⟨fun _ _ => rfl, fun _ e he => ?_⟩
      cases hcert : dto.certificateId.isSome with
      | false =>
        simp only [hcert, Bool.false_eq_true, if_false] at he
        exact absurd he (not_failed_finish _ _ _)
      | true =>
        cases hsync : p.sync with
        | ok u =>
          simp only [hcert, hsync, if_true] at he
          exact absurd he (not_failed_finish _ _ _)
        | error e' =>
          simp only [if_true]
          exact remove_insert t (row a dto id.1) id.2

end AddDomain

/-! ## A domain is updated -/

namespace UpdateDomain
variable {a : Answers} {p : ProxySteps} {remote : Bool} {dto : UpdateDomainDto} {t : DomainTable}
  {domain : DomainRow} {planned : Patch}

/-- The request leaves the DNS connection and the proxied flag as they are. -/
def KeepsDns (dto : UpdateDomainDto) (domain : Domain) : Prop :=
  nextDnsConnection domain dto = domain.dnsConnectionId ∧ nextProxied domain dto = domain.dnsProxied

theorem plan_some (h : plan a dto domain.toDomain = .ok (some planned)) :
    planned = plannedPatch domain.toDomain dto := by
  obtain ⟨_, -, h⟩ := bind_eq_ok.mp h
  obtain ⟨_, -, h⟩ := bind_eq_ok.mp h
  obtain ⟨_, -, h⟩ := bind_eq_ok.mp h
  exact (planUpdate_some h).1

theorem not_failed_finish (e : JsString) : (finish a dto domain planned t).1 ≠ .failed e := by
  have hlabels : End.ofLabels a.labels ≠ .failed e := by cases a.labels <;> simp [End.ofLabels]
  unfold finish
  dsimp only
  by_cases hchanged : (planned.certificateId.isSome || planned.middlewares.isSome ||
      planned.certMode.isSome) = true
  · rw [if_pos hchanged]
    exact hlabels
  · rw [if_neg hchanged]
    simp

theorem written_ne (htells : tellsProxy dto domain.toDomain = true) :
    (written a dto domain (plannedPatch domain.toDomain dto)).apply domain ≠ domain := fun heq => by
  have hcert := congrArg (fun r : DomainRow => r.certificateId) heq
  have hne : domain.certificateId ≠ nextCertificateId domain.toDomain dto := by
    simp only [tellsProxy, Bool.and_eq_true, decide_eq_true_eq] at htells
    exact htells.1
  exact hne (by simpa [written, RowPatch.apply, Patch.apply, plannedPatch] using hcert.symm)

/-- **What is put back is everything, unless the DNS record was concerned.** -/
theorem restored_eq_iff : (restored domain.toDomain).apply
        ((written a dto domain (plannedPatch domain.toDomain dto)).apply domain) = domain ↔
      KeepsDns dto domain.toDomain := by
  constructor
  · intro heq
    have hconnection := congrArg (fun r : DomainRow => r.dnsConnectionId) heq
    have hproxied := congrArg (fun r : DomainRow => r.dnsProxied) heq
    exact ⟨by simpa [restored, restore, written, RowPatch.apply, Patch.apply, plannedPatch] using
        hconnection,
      by simpa [restored, restore, written, RowPatch.apply, Patch.apply, plannedPatch] using
        hproxied⟩
  · rintro ⟨hconnection, hproxied⟩
    simp [restored, restore, written, RowPatch.apply, Patch.apply, plannedPatch, hconnection,
      hproxied]

theorem leavesTable_tellProxy_iff {id : Nat} (hfind : t.find id = some domain)
    (htells : tellsProxy dto domain.toDomain = true) :
    LeavesTable (tellProxy a p remote dto domain (plannedPatch domain.toDomain dto)
        (t.patch id (written a dto domain (plannedPatch domain.toDomain dto)))) t ↔
      p.Reachable remote dto.assigned.isSome ∧
        (Succeeds p.sync ∨ KeepsDns dto domain.toDomain) := by
  rw [← reach_eq_ok_iff]
  unfold tellProxy
  cases hreach : p.reach remote dto.assigned.isSome with
  | error e =>
    constructor
    · intro h
      exact absurd ((patch_eq_iff hfind _).mp (h e rfl)) (written_ne htells)
    · rintro ⟨hok, -⟩
      cases hok
  | ok u =>
    cases hsync : p.sync with
    | ok v =>
      refine ⟨fun _ => ⟨rfl, .inl ⟨v, rfl⟩⟩, fun _ e he => ?_⟩
      exact absurd he (not_failed_finish e)
    | error e =>
      have hput := patch_patch_eq_iff hfind
        (written a dto domain (plannedPatch domain.toDomain dto)) (restored domain.toDomain)
      rw [restored_eq_iff, ← (find_spec hfind).2.1] at hput
      constructor
      · intro h
        exact ⟨rfl, .inr (hput.mp ((find_spec hfind).2.1 ▸ h _ rfl))⟩
      · rintro ⟨-, ⟨_, hok⟩ | hkeeps⟩ e' -
        · cases hok
        · exact (find_spec hfind).2.1 ▸ hput.mpr hkeeps

/-- **Nothing stays behind of a request that is refused or does not concern the certificate, and
of one that reaches the proxy and either writes the certificates or keeps the DNS record.** -/
theorem leavesTable_iff (id : Nat) : LeavesTable (execute a p remote dto id t) t ↔
      ∀ domain, t.find id = some domain →
        ∀ planned, plan a dto domain.toDomain = .ok (some planned) →
        tellsProxy dto domain.toDomain = true →
        p.Reachable remote dto.assigned.isSome ∧
          (Succeeds p.sync ∨ KeepsDns dto domain.toDomain) := by
  cases hfind : t.find id with
  | none =>
    refine ⟨fun _ _ h => (by cases h), fun _ _ _ => ?_⟩
    simp only [execute, hfind]
  | some domain =>
    simp only [Option.some.injEq, forall_eq']
    cases hplan : plan a dto domain.toDomain with
    | error e =>
      refine ⟨fun _ _ h => (by cases h), fun _ _ _ => ?_⟩
      simp only [execute, hfind, hplan]
    | ok o =>
      cases o with
      | none =>
        refine ⟨fun _ _ h => (by cases h), fun _ _ _ => ?_⟩
        simp only [execute, hfind, hplan]
      | some planned =>
        obtain rfl := plan_some hplan
        simp only [execute, hfind, hplan]
        cases htells : tellsProxy dto domain.toDomain with
        | false =>
          refine ⟨fun _ _ _ h => (by cases h), fun _ e he => ?_⟩
          exact absurd he (not_failed_finish e)
        | true =>
          rw [if_pos rfl, leavesTable_tellProxy_iff hfind htells]
          exact ⟨fun h _ _ _ => h, fun h => h _ rfl rfl⟩

end UpdateDomain

/-- **When a request on a domain that fails before the labels leaves the table as it was.** -/
theorem failed_request_leaves_table (a : Answers) (p : ProxySteps) (remote : Bool)
    (t : DomainTable) :
    (∀ (dto : AddDomainDto) (id : t.Fresh),
      LeavesTable (AddDomain.execute a p remote dto t id) t ↔
        (AddDomain.checks a dto t = .ok () → p.Reachable remote true)) ∧
    ∀ (dto : UpdateDomainDto) (id : Nat),
      LeavesTable (UpdateDomain.execute a p remote dto id t) t ↔
        ∀ domain, t.find id = some domain →
          ∀ planned, UpdateDomain.plan a dto domain.toDomain = .ok (some planned) →
          UpdateDomain.tellsProxy dto domain.toDomain = true →
          p.Reachable remote dto.assigned.isSome ∧
            (Succeeds p.sync ∨ UpdateDomain.KeepsDns dto domain.toDomain) :=
  ⟨fun _ id => AddDomain.leavesTable_iff id, fun _ id => UpdateDomain.leavesTable_iff id⟩

/-! ## Rows left behind -/

def answers : Answers where
  lower := id
  certificate := fun _ => .ok [js "shop.example.com"]
  middlewaresExist := .ok ()
  proxyHasDns := false
  connectionExists := false
  cleanup := none
  outcome := ⟨.ok, js "", []⟩
  labels := .ok ()

/-- The proxy does not answer. -/
def unreachable : ProxySteps :=
  ⟨.ok (), .ok (), .error (js "connect ECONNREFUSED"), .ok (), .ok ()⟩

/-- The certificate cannot be written. -/
def unwritable : ProxySteps :=
    ⟨.ok (), .ok (), .ok true, .ok (), .error (js "no space left on device")⟩

def shop : DomainRow :=
  ⟨⟨1, js "shop.example.com", true, none, [], .http, none, false⟩, [], none, none⟩

def shopTable : DomainTable := ⟨[shop], List.pairwise_singleton _ _⟩

def shopDto : AddDomainDto := ⟨js "new.example.com", some true, none, none, none, none⟩

def certificateAndFlag : UpdateDomainDto := ⟨some (some 7), none, none, none, some true, none⟩

/-- The new row stays, and the flag of the old one. -/
theorem rows_left_behind :
    ¬ LeavesTable (AddDomain.execute answers unreachable false shopDto shopTable ⟨2, by decide⟩)
        shopTable ∧
      ¬ LeavesTable (UpdateDomain.execute answers unwritable false certificateAndFlag 1 shopTable)
        shopTable := by
  constructor
  · intro h
    exact absurd (congrArg DomainTable.rows (h _ rfl)) (by decide)
  · intro h
    exact absurd (congrArg DomainTable.rows (h _ rfl)) (by decide)

end Aoox.Domains
