import Aoox.Faults
import Aoox.JsString

/-! # The DNS records of a domain

A domain with a DNS connection has its address record kept up to date.  The provider holds
records of others beside those of aoox, and which ones are aoox's is only a list of record
ids in the domain's row: a sync reads it, and returns the list for the next one.

Any call to the provider may fail, with or without its effect, and others add, change and
delete records before any of them.  The world carries what aoox has written (`log`) and
every state of the provider during a call (`moments`), which nothing reads.
`syncs_lawful` is what holds of every sequence of syncs and removals.  A sync goes by its
listing: what others do to a record between the listing and the update, it does not see
(`listing_outdated`).
-/
namespace Aoox.Dns
open JsString Faults List

/-! ## The provider -/

inductive RecordType where
  | a | aaaa | cname | other
  deriving DecidableEq

structure CfRecord where
  (id zone : Nat)
  type : RecordType
  (name content : JsString)
  proxied : Bool

/-- A write of aoox, with what the record contained before. -/
inductive Write where
  | create (id : Nat)
  | update (id : Nat) (overwrite : Bool) (before : JsString)
  | delete (id : Nat)
  deriving DecidableEq

structure World where
  records : List CfRecord
  /-- The ids there have been. -/
  used : List Nat
  /-- What aoox has written, the last write first. -/
  log : List Write
  /-- The states of the provider during the call, the last one first. -/
  moments : List (List CfRecord)
  listed : List CfRecord

inductive Failure where
  | provider (message : JsString)
  | other

/-- What a call meets: the records as others have left them, and what the provider
chooses. -/
structure Turn where
  others : List CfRecord
  /-- The zone of a host, for a lookup. -/
  zone : Option Nat
  /-- The id of a new record. -/
  id : Nat

abbrev Client (α : Type) := Run World Failure Turn α

/-- The provider's records become others.  Ids stay unique and are never used again. -/
def World.become (w : World) (records : List CfRecord) : World :=
  { w with
    records := records
    used := records.map CfRecord.id ++ w.used
    moments := records :: w.moments }

def legal (w : World) (records : List CfRecord) : Bool :=
  (records.map CfRecord.id).Nodup ∧
    records.all fun r => (w.records.any fun q => q.id = r.id) || !w.used.contains r.id

/-- Others change records first. -/
def World.meet (w : World) (t : Turn) : World := if legal w t.others then w.become t.others else w

def World.wrote (w : World) (e : Write) : World := { w with log := e :: w.log }

def notFound : Failure := .provider (js "Cloudflare answered 404")

def findZone : Client (Option Nat) := call fun t w => .ok (t.zone, w.meet t)

def listRecords (zone : Nat) (name : JsString) : Client (List CfRecord) :=
  call fun t w =>
    let w := w.meet t
    let found := (w.records.filter fun r => r.zone = zone && r.name = name).take 100
    .ok (found, { w with listed := found })

def createRecord (zone : Nat) (type : RecordType) (name content : JsString) (proxied : Bool) :
    Client CfRecord :=
  call fun t w =>
    let w := w.meet t
    -- an id that was in use never comes back
    if w.used.contains t.id then .error .other
    else
      let r : CfRecord := ⟨t.id, zone, type, name, content, proxied⟩
      .ok (r, (w.become (r :: w.records)).wrote (.create r.id))

/-- `overwrite` is the flag of the call, for the log only. -/
def updateRecord (overwrite : Bool) (zone id : Nat) (content : JsString) (proxied : Bool) : Client Unit :=
  call fun t w =>
    let w := w.meet t
    match w.records.find? fun r => r.zone = zone && r.id = id with
    | none => .error notFound
    | some old =>
      .ok ((), (w.become (w.records.map fun r =>
        if r.id = id then { r with content := content, proxied := proxied } else r)).wrote
          (.update id overwrite old.content))

def deleteRecord (zone id : Nat) : Client Unit :=
  call fun t w =>
    let w := w.meet t
    if w.records.any fun r => r.zone = zone && r.id = id then
      .ok ((), (w.become (w.records.filter fun r => r.id ≠ id)).wrote (.delete id))
    else .error notFound

/-! ## Syncs and removals -/

/-- A record aoox created, or was told to take over. -/
structure ManagedRecord where
  (zoneId recordId : Nat)
  type : RecordType
  (name content : JsString)
  deriving DecidableEq

inductive Status where
  | ok | warning | error
  deriving DecidableEq

structure DnsSyncOutcome where
  status : Status
  message : JsString
  /-- The records aoox owns for this host after the sync. -/
  records : List ManagedRecord

def RecordType.text : RecordType → JsString
  | .a => js "A"
  | .aaaa => js "AAAA"
  | .cname => js "CNAME"
  | .other => js "other"

/-- Deletes the records of the other family that are still there. -/
def deleteStale (existing : List CfRecord) : List ManagedRecord → Client Unit
  | [] => pure ()
  | stale :: rest => do
    (if existing.any fun e => e.id = stale.recordId then deleteRecord stale.zoneId stale.recordId
      else pure () : Client Unit)
    deleteStale existing rest

structure Wanted where
  type : RecordType
  (host ip : JsString)
  (proxied overwrite : Bool)

def Wanted.managed (x : Wanted) (zone id : Nat) : ManagedRecord := ⟨zone, id, x.type, x.host, x.ip⟩

/-- `A record host -> ip`. -/
def Wanted.line (x : Wanted) : JsString := x.type.text ++ js " record " ++ x.host ++ js " -> " ++ x.ip

/-- The sync after the listing and the stale records; `owned` is of the wanted type. -/
def settle (x : Wanted) (owned : List ManagedRecord) (zone : Nat) (existing : List CfRecord) :
    Client DnsSyncOutcome :=
  let sameType := existing.filter fun e => e.type = x.type
  -- a record of ours is brought up to date, and stays the only one of its type
  match sameType.find? fun e => owned.any fun o => o.recordId = e.id with
  | some mine => do
    (if mine.content ≠ x.ip || mine.proxied ≠ x.proxied then
      updateRecord x.overwrite zone mine.id x.ip x.proxied
      else pure () : Client Unit)
    return ⟨.ok, x.line, [x.managed zone mine.id]⟩
  | none =>
    if existing.any fun e => e.type = .cname then
      return ⟨.warning, x.host ++
        js " already has a CNAME record in Cloudflare; remove it or point it yourself (an " ++
        x.type.text ++ js " record cannot coexist)", []⟩
    else
      match sameType.head? with
      | some other =>
        -- somebody else put it there: it stays theirs
        if other.content = x.ip then return ⟨.ok, x.line ++ js " already exists; left as it is", []⟩
        else if !x.overwrite then
          return ⟨.warning, x.host ++ js " already has an " ++ x.type.text ++
            js " record pointing at " ++ other.content ++
            js "; not changed. Enable \"overwrite existing record\" to replace it", []⟩
        else do
          updateRecord x.overwrite zone other.id x.ip x.proxied
          return ⟨.ok, x.type.text ++ js " record " ++ x.host ++ js " updated from " ++ other.content ++
            js " to " ++ x.ip, [x.managed zone other.id]⟩
      | none => do
        let created ← createRecord zone x.type x.host x.ip x.proxied
        return ⟨.ok, x.line ++ js " created", [x.managed zone created.id]⟩

/-- Makes the host resolve to the address; `isIPv6` is `isIP(ip) === 6`. -/
def syncHostRecord (isIPv6 : JsString → Bool) (host ip : JsString) (proxied overwrite : Bool)
    (owned : List ManagedRecord) : Client DnsSyncOutcome :=
  let x : Wanted := ⟨if isIPv6 ip then .aaaa else .a, host, ip, proxied, overwrite⟩
  attempt
    (do
      match ← findZone with
      | none =>
        return ⟨.warning, js "No Cloudflare zone found for " ++ host ++
          js " that this token can access", owned⟩
      | some zone =>
        let existing ← listRecords zone host
        deleteStale existing (owned.filter fun o => o.type ≠ x.type)
        settle x (owned.filter fun o => o.type = x.type) zone existing)
    fun failure =>
      return ⟨.error, match failure with
        | .provider message => message
        | .other => js "Cloudflare request failed", owned⟩

/-- Deletes exactly the given records; one that is gone already counts as removed. -/
def removeManagedRecords : List ManagedRecord → Client (Nat × List JsString)
  | [] => return (0, [])
  | r :: rest => do
    let error ← attempt
      (do
        deleteRecord r.zoneId r.recordId
        return none)
      fun failure =>
        let message := match failure with
          | .provider message => message
          | .other => js "failed"
        return if includes message (js "answered 404") then none
          else some (r.name ++ js ": " ++ message)
    let (removed, errors) ← removeManagedRecords rest
    return match error with
      | none => (removed + 1, errors)
      | some error => (removed, error :: errors)

/-! ## The domain's row -/

/-- What a domain service asks for: the address to point at, if the lookup did not fail and
found one, and whether the connection could be used. -/
structure SyncRequest where
  expected : Option (Option JsString)
  (client proxied overwrite : Bool)

/-- `DomainDnsService.sync`, up to the update of the row. -/
def sync (isIPv6 : JsString → Bool) (host : JsString) (q : SyncRequest) (owned : List ManagedRecord) :
    Client DnsSyncOutcome :=
  match q.expected with
  | none => return ⟨.error, js "DNS provider connection could not be used", owned⟩
  | some none =>
    return ⟨.warning, js "Could not tell which IP this domain should point at (set PUBLIC_IP, or " ++
      js "check that the public IP lookup works); no record was written", owned⟩
  | some (some ip) =>
    if q.client then syncHostRecord isIPv6 host ip q.proxied q.overwrite owned
    else return ⟨.error, js "DNS provider connection could not be used", owned⟩

inductive Call where
  | sync (q : SyncRequest)
  | remove

structure State where
  world : World
  /-- `dns_records` of the domain's row. -/
  owned : List ManagedRecord

/-- A call begins; what is kept of a call is kept anew. -/
def World.begin (w : World) : World := { w with moments := [w.records], listed := [] }

/-- A call that does not return leaves the row as it is. -/
def runCall (isIPv6 : JsString → Bool) (host : JsString) (s : State) :
    Call × List (Outcome Failure Turn) → State
  | (.sync q, os) =>
    match sync isIPv6 host q s.owned s.world.begin os with
    | (.returned outcome, w, _) => ⟨w, outcome.records⟩
    | (_, w, _) => ⟨w, s.owned⟩
  | (.remove, os) =>
    match removeManagedRecords s.owned s.world.begin os with
    | (.returned _, w, _) => ⟨w, []⟩
    | (_, w, _) => ⟨w, s.owned⟩

def initial (records : List CfRecord) : State := ⟨⟨records, records.map CfRecord.id, [], [], []⟩, []⟩

def runCalls (isIPv6 : JsString → Bool) (host : JsString) (records : List CfRecord)
    (calls : List (Call × List (Outcome Failure Turn))) : State :=
  calls.foldl (runCall isIPv6 host) (initial records)

/-! ## What aoox may write -/

/-- A record that aoox created, or updated in a call with `overwrite`. -/
def Own (log : List Write) (id : Nat) : Prop :=
  .create id ∈ log ∨ ∃ before, .update id true before ∈ log

/-- **Every update and every deletion is of aoox's own records**, or is the update that takes
a record over. -/
def Rightful : List Write → Prop
  | [] => True
  | .create _ :: log => Rightful log
  | .update id overwrite _ :: log => (overwrite = true ∨ Own log id) ∧ Rightful log
  | .delete id :: log => Own log id ∧ Rightful log

/-- What holds between any two calls to the provider. -/
structure Sound (owned : List ManagedRecord) (w : World) : Prop where
  rightful : Rightful w.log
  own : ∀ o ∈ owned, Own w.log o.recordId
  now : w.records ∈ w.moments

structure Listing (host : JsString) (existing : List CfRecord) (w : World) : Prop where
  listed : w.listed = existing
  seen : ∃ m ∈ w.moments, ∀ r ∈ existing, r ∈ m ∧ r.name = host

/-- What a sync that returned has done.  A record it adopts is one aoox created, or one it
listed with another content, in a call with `overwrite`; and when it reports ok, a record
with the wanted content was there, of the wanted host and type or listed so. -/
structure Lawful (isIPv6 : JsString → Bool) (host : JsString) (q : SyncRequest)
    (owned : List ManagedRecord) (outcome : DnsSyncOutcome) (w : World) : Prop where
  adopted : ∀ o ∈ outcome.records, (∃ p ∈ owned, p.recordId = o.recordId) ∨
    .create o.recordId ∈ w.log ∨
      (q.overwrite = true ∧ ∃ r ∈ w.listed, r.id = o.recordId ∧ q.expected ≠ some (some r.content))
  address : outcome.status = .ok → ∃ ip, q.expected = some (some ip) ∧
    ∃ m ∈ w.moments, ∃ r ∈ m, r.content = ip ∧
      ((r.name = host ∧ r.type = if isIPv6 ip then .aaaa else .a) ∨
        ∃ l ∈ w.listed, l.id = r.id ∧ l.name = host ∧ l.type = if isIPv6 ip then .aaaa else .a)

variable {owned : List ManagedRecord} {host : JsString} {existing : List CfRecord} {w : World}

theorem Own.cons {log : List Write} {id : Nat} (h : Own log id) (e : Write) : Own (e :: log) id := by
  rcases h with hcreate | ⟨before, hupdate⟩
  · exact Or.inl (mem_cons_of_mem _ hcreate)
  · exact Or.inr ⟨before, mem_cons_of_mem _ hupdate⟩

theorem Sound.become (h : Sound owned w) (records : List CfRecord) : Sound owned (w.become records) :=
  ⟨h.rightful, h.own, mem_cons_self⟩

theorem Sound.meet (h : Sound owned w) (t : Turn) : Sound owned (w.meet t) := by
  unfold World.meet
  split
  · exact h.become t.others
  · exact h

theorem Sound.wrote (h : Sound owned w) {e : Write} (he : Rightful (e :: w.log)) :
    Sound owned (w.wrote e) where
  rightful := he
  own o ho := (h.own o ho).cons e
  now := h.now

theorem Listing.become (h : Listing host existing w) (records : List CfRecord) :
    Listing host existing (w.become records) where
  listed := h.listed
  seen := by
    obtain ⟨m, hm, hall⟩ := h.seen
    exact ⟨m, mem_cons_of_mem _ hm, hall⟩

theorem Listing.meet (h : Listing host existing w) (t : Turn) : Listing host existing (w.meet t) := by
  unfold World.meet
  split
  · exact h.become t.others
  · exact h

theorem Listing.wrote (h : Listing host existing w) (e : Write) : Listing host existing (w.wrote e) :=
  ⟨h.listed, h.seen⟩

/-! ## Calls -/

theorem deleteRecord_effect (zone id : Nat) {P : World → Prop}
    (h : ∀ w t, P w → P (((w.meet t).become ((w.meet t).records.filter fun r => r.id ≠ id)).wrote
      (.delete id))) : Leaves P (deleteRecord zone id) P ∧
        Ensures P (deleteRecord zone id) fun _ => P := by
  have heffect : ∀ (w : World) (t : Turn) (a : Unit) (w' : World), P w →
      (let w := w.meet t
       if w.records.any fun r => r.zone = zone && r.id = id then
         Except.ok ((), (w.become (w.records.filter fun r => r.id ≠ id)).wrote (.delete id))
       else Except.error notFound) = .ok (a, w') → P w' := by
    intro w t a w' hP heq
    dsimp only at heq
    split at heq
    · obtain ⟨-, rfl⟩ := Prod.mk.inj (Except.ok.inj heq)
      exact h w t hP
    · cases heq
  exact ⟨leaves_call (fun _ hP => hP) heffect, ensures_call heffect⟩

theorem deleteStale_spec (owned : List ManagedRecord) (host : JsString) (existing : List CfRecord)
    {stale : List ManagedRecord} (hstale : ∀ o ∈ stale, o ∈ owned) :
    Leaves (fun w => Sound owned w ∧ Listing host existing w) (deleteStale existing stale)
        (fun w => Sound owned w ∧ Listing host existing w) ∧
      Ensures (fun w => Sound owned w ∧ Listing host existing w) (deleteStale existing stale)
        fun _ w => Sound owned w ∧ Listing host existing w := by
  induction stale with
  | nil => exact ⟨leaves_pure _ fun _ h => h, ensures_pure _ fun _ h => h⟩
  | cons o rest ih =>
    obtain ⟨ihleaves, ihensures⟩ := ih fun p hp => hstale p (mem_cons_of_mem _ hp)
    have hdelete := deleteRecord_effect o.zoneId o.recordId
      (P := fun w => Sound owned w ∧ Listing host existing w) (by
        rintro w t ⟨hsound, hlisting⟩
        refine ⟨((hsound.meet t).become _).wrote ?_, ((hlisting.meet t).become _).wrote _⟩
        have hmeet := hsound.meet t
        exact ⟨hmeet.own o (hstale o mem_cons_self), hmeet.rightful⟩)
    have hfirst : Leaves (fun w => Sound owned w ∧ Listing host existing w)
          (if existing.any fun e => e.id = o.recordId then deleteRecord o.zoneId o.recordId else pure ())
          (fun w => Sound owned w ∧ Listing host existing w) ∧
        Ensures (fun w => Sound owned w ∧ Listing host existing w)
          (if existing.any fun e => e.id = o.recordId then deleteRecord o.zoneId o.recordId else pure ())
          fun _ w => Sound owned w ∧ Listing host existing w := by
      split
      · exact hdelete
      · exact ⟨leaves_pure _ fun _ h => h, ensures_pure _ fun _ h => h⟩
    exact ⟨hfirst.1.bind hfirst.2 fun _ => ihleaves, hfirst.2.bind fun _ => ihensures⟩

/-- What an update leaves of the records. -/
def patched (records : List CfRecord) (id : Nat) (content : JsString) (proxied : Bool) : List CfRecord :=
  records.map fun r => if r.id = id then { r with content := content, proxied := proxied } else r

/-- The record that is updated has the content then. -/
theorem exists_patched {records : List CfRecord} {zone id : Nat} {old : CfRecord}
    (h : (records.find? fun r => r.zone = zone && r.id = id) = some old) (content : JsString)
    (proxied : Bool) : ∃ r ∈ patched records id content proxied, r.id = id ∧ r.content = content := by
  have hmem := List.mem_of_find?_eq_some h
  have hid : old.id = id := by
    have hprop := List.find?_some h
    simp only [Bool.and_eq_true, decide_eq_true_eq] at hprop
    exact hprop.2
  refine ⟨{ old with content := content, proxied := proxied }, ?_, hid, rfl⟩
  exact mem_map.mpr ⟨old, hmem, if_pos hid⟩

/-- An update that has its effect leaves the record with the content; otherwise nothing
happens. -/
theorem updateRecord_effect {overwrite : Bool} {zone id : Nat} {content : JsString} {proxied : Bool}
    {P K : World → Prop} {Q : World → Prop} (hstay : ∀ w, P w → K w) (hend : ∀ w, Q w → K w)
    (h : ∀ w t before, P w →
      (∃ r ∈ patched (w.meet t).records id content proxied, r.id = id ∧ r.content = content) →
      Q (((w.meet t).become (patched (w.meet t).records id content proxied)).wrote
        (.update id overwrite before))) :
    Leaves P (updateRecord overwrite zone id content proxied) K ∧
      Ensures P (updateRecord overwrite zone id content proxied) fun _ => Q := by
  have heffect : ∀ (w : World) (t : Turn) (a : Unit) (w' : World), P w →
      (let w := w.meet t
       match w.records.find? fun r => r.zone = zone && r.id = id with
       | none => Except.error notFound
       | some old =>
         Except.ok ((), (w.become (patched w.records id content proxied)).wrote
           (.update id overwrite old.content))) = .ok (a, w') → Q w' := by
    intro w t a w' hP heq
    dsimp only at heq
    split at heq
    · cases heq
    · rename_i old hfind
      obtain ⟨-, rfl⟩ := Prod.mk.inj (Except.ok.inj heq)
      exact h w t old.content hP (exists_patched hfind content proxied)
  exact ⟨leaves_call hstay fun w t a w' hP heq => hend w' (heffect w t a w' hP heq), ensures_call heffect⟩

/-- What a sync has settled; `Lawful` is this for the request it came from. -/
structure Settled (x : Wanted) (owned : List ManagedRecord) (outcome : DnsSyncOutcome) (w : World) :
    Prop where
  rightful : Rightful w.log
  own : ∀ o ∈ outcome.records, Own w.log o.recordId
  adopted : ∀ o ∈ outcome.records, (∃ p ∈ owned, p.recordId = o.recordId) ∨
    .create o.recordId ∈ w.log ∨
      (x.overwrite = true ∧ ∃ r ∈ w.listed, r.id = o.recordId ∧ r.content ≠ x.ip)
  address : outcome.status = .ok → ∃ m ∈ w.moments, ∃ r ∈ m, r.content = x.ip ∧
    ((r.name = x.host ∧ r.type = x.type) ∨
      ∃ l ∈ w.listed, l.id = r.id ∧ l.name = x.host ∧ l.type = x.type)

/-- A sync that leaves everything as it is and has nothing to report. -/
theorem Settled.warning {x : Wanted} (h : Sound owned w) (message : JsString) :
    Settled x owned ⟨.warning, message, []⟩ w where
  rightful := h.rightful
  own o ho := by cases ho
  adopted o ho := by cases ho
  address hok := by cases hok

theorem Listing.address {x : Wanted} (h : Listing x.host existing w) {r : CfRecord} (hr : r ∈ existing)
    (htype : r.type = x.type) (hcontent : r.content = x.ip) :
    ∃ m ∈ w.moments, ∃ r ∈ m, r.content = x.ip ∧
      ((r.name = x.host ∧ r.type = x.type) ∨
        ∃ l ∈ w.listed, l.id = r.id ∧ l.name = x.host ∧ l.type = x.type) := by
  obtain ⟨m, hm, hall⟩ := h.seen
  obtain ⟨hrm, hname⟩ := hall r hr
  exact ⟨m, hm, r, hrm, hcontent, Or.inl ⟨hname, htype⟩⟩

/-- An update of a listed record is enough for a report as well. -/
theorem Listing.updated {x : Wanted} (h : Listing x.host existing w) {l : CfRecord} (hl : l ∈ existing)
    (htype : l.type = x.type) {records : List CfRecord}
    (hr : ∃ r ∈ records, r.id = l.id ∧ r.content = x.ip) (e : Write) :
    ∃ m ∈ ((w.become records).wrote e).moments, ∃ r ∈ m, r.content = x.ip ∧
      ((r.name = x.host ∧ r.type = x.type) ∨
        ∃ q ∈ ((w.become records).wrote e).listed, q.id = r.id ∧ q.name = x.host ∧ q.type = x.type) := by
  obtain ⟨r, hr, hid, hcontent⟩ := hr
  obtain ⟨m, -, hall⟩ := h.seen
  refine ⟨records, mem_cons_self, r, hr, hcontent, Or.inr ⟨l, ?_, hid.symm, (hall l hl).2, htype⟩⟩
  show l ∈ w.listed
  rw [h.listed]
  exact hl

section Settle
variable {x : Wanted} {kept : List ManagedRecord} {zone : Nat} {mine other : CfRecord}

/-- A record of aoox is brought up to date. -/
theorem update_mine (hmine : mine ∈ existing) (htype : mine.type = x.type)
    (hown : ∃ o ∈ owned, o.recordId = mine.id) (message : JsString) :
    Leaves (fun w => Sound owned w ∧ Listing x.host existing w)
        (updateRecord x.overwrite zone mine.id x.ip x.proxied) (Sound owned) ∧
      Ensures (fun w => Sound owned w ∧ Listing x.host existing w)
        (updateRecord x.overwrite zone mine.id x.ip x.proxied)
        fun _ w => Sound owned w ∧ Settled x owned ⟨.ok, message, [x.managed zone mine.id]⟩ w := by
  obtain ⟨o, ho, hid⟩ := hown
  refine updateRecord_effect (fun w h => h.1) (fun w h => h.1) ?_
  rintro w t before ⟨hsound, hlisting⟩ hpatched
  have hmeet := hsound.meet t
  have hmineOwn : Own (w.meet t).log mine.id := hid ▸ hmeet.own o ho
  have hwrote : Sound owned (((w.meet t).become (patched (w.meet t).records mine.id x.ip x.proxied)).wrote
      (.update mine.id x.overwrite before)) :=
    (hmeet.become _).wrote ⟨Or.inr hmineOwn, hmeet.rightful⟩
  refine ⟨hwrote, hwrote.rightful, ?_, ?_, ?_⟩
  · intro p hp
    obtain rfl := mem_singleton.mp hp
    exact hmineOwn.cons _
  · intro p hp
    obtain rfl := mem_singleton.mp hp
    exact Or.inl ⟨o, ho, hid⟩
  · intro _
    exact (hlisting.meet t).updated hmine htype hpatched _

theorem update_other (owned : List ManagedRecord) (zone : Nat) (hother : other ∈ existing)
    (htype : other.type = x.type)
    (hcontent : other.content ≠ x.ip) (hoverwrite : x.overwrite = true) (message : JsString) :
    Leaves (fun w => Sound owned w ∧ Listing x.host existing w)
        (updateRecord x.overwrite zone other.id x.ip x.proxied) (Sound owned) ∧
      Ensures (fun w => Sound owned w ∧ Listing x.host existing w)
        (updateRecord x.overwrite zone other.id x.ip x.proxied)
        fun _ w => Sound owned w ∧ Settled x owned ⟨.ok, message, [x.managed zone other.id]⟩ w := by
  refine updateRecord_effect (fun w h => h.1) (fun w h => h.1) ?_
  rintro w t before ⟨hsound, hlisting⟩ hpatched
  have hmeet := hsound.meet t
  have hwrote : Sound owned (((w.meet t).become (patched (w.meet t).records other.id x.ip x.proxied)).wrote
      (.update other.id x.overwrite before)) :=
    (hmeet.become _).wrote ⟨Or.inl hoverwrite, hmeet.rightful⟩
  refine ⟨hwrote, hwrote.rightful, ?_, ?_, ?_⟩
  · intro p hp
    obtain rfl := mem_singleton.mp hp
    exact Or.inr ⟨before, hoverwrite ▸ mem_cons_self⟩
  · intro p hp
    obtain rfl := mem_singleton.mp hp
    refine Or.inr (Or.inr ⟨hoverwrite, other, ?_, rfl, hcontent⟩)
    show other ∈ (w.meet t).listed
    rw [(hlisting.meet t).listed]
    exact hother
  · intro _
    exact (hlisting.meet t).updated hother htype hpatched _

theorem create_spec (x : Wanted) (owned : List ManagedRecord) (existing : List CfRecord) (zone : Nat)
    (message : JsString) :
    Leaves (fun w => Sound owned w ∧ Listing x.host existing w)
        (createRecord zone x.type x.host x.ip x.proxied) (Sound owned) ∧
      Ensures (fun w => Sound owned w ∧ Listing x.host existing w)
        (createRecord zone x.type x.host x.ip x.proxied)
        fun created w => Sound owned w ∧
          Settled x owned ⟨.ok, message, [x.managed zone created.id]⟩ w := by
  have heffect : ∀ (w : World) (t : Turn) (created : CfRecord) (w' : World),
      (Sound owned w ∧ Listing x.host existing w) →
      (let w := w.meet t
       if w.used.contains t.id then Except.error Failure.other
       else
         let r : CfRecord := ⟨t.id, zone, x.type, x.host, x.ip, x.proxied⟩
         Except.ok (r, (w.become (r :: w.records)).wrote (.create r.id))) = .ok (created, w') →
      Sound owned w' ∧ Settled x owned ⟨.ok, message, [x.managed zone created.id]⟩ w' := by
    rintro w t created w' ⟨hsound, -⟩ heq
    dsimp only at heq
    split at heq
    · cases heq
    · obtain ⟨rfl, rfl⟩ := Prod.mk.inj (Except.ok.inj heq)
      have hmeet := hsound.meet t
      have hwrote := (hmeet.become (⟨t.id, zone, x.type, x.host, x.ip, x.proxied⟩ ::
        (w.meet t).records)).wrote (e := .create t.id) hmeet.rightful
      refine ⟨hwrote, hwrote.rightful, ?_, ?_, ?_⟩
      · intro p hp
        obtain rfl := mem_singleton.mp hp
        exact Or.inl mem_cons_self
      · intro p hp
        obtain rfl := mem_singleton.mp hp
        exact Or.inr (Or.inl mem_cons_self)
      · intro _
        exact ⟨_, mem_cons_self, _, mem_cons_self, rfl, Or.inl ⟨rfl, rfl⟩⟩
  exact ⟨leaves_call (fun w h => h.1) fun w t a w' hP heq => (heffect w t a w' hP heq).1,
    ensures_call heffect⟩

/-- **After the listing.** -/
theorem settle_spec (x : Wanted) (owned : List ManagedRecord) (existing : List CfRecord) (zone : Nat)
    (hkept : ∀ o ∈ kept, o ∈ owned) :
    Leaves (fun w => Sound owned w ∧ Listing x.host existing w) (settle x kept zone existing)
        (Sound owned) ∧
      Ensures (fun w => Sound owned w ∧ Listing x.host existing w) (settle x kept zone existing)
        fun outcome w => Sound owned w ∧ Settled x owned outcome w := by
  have hwarning : ∀ message, Leaves (fun w => Sound owned w ∧ Listing x.host existing w)
        (pure ⟨.warning, message, []⟩ : Client DnsSyncOutcome) (Sound owned) ∧
      Ensures (fun w => Sound owned w ∧ Listing x.host existing w)
        (pure ⟨.warning, message, []⟩ : Client DnsSyncOutcome)
        fun outcome w => Sound owned w ∧ Settled x owned outcome w := by
    intro message
    exact ⟨leaves_pure _ fun w h => h.1, ensures_pure _ fun w h => ⟨h.1, .warning h.1 message⟩⟩
  unfold settle
  dsimp only
  split
  · rename_i mine hfind
    have hmem := List.mem_of_find?_eq_some hfind
    obtain ⟨hexisting, htype⟩ := mem_filter.mp hmem
    have htype : mine.type = x.type := by simpa using htype
    have hown : ∃ o ∈ owned, o.recordId = mine.id := by
      have hprop := List.find?_some hfind
      obtain ⟨o, ho, hid⟩ := any_eq_true.mp hprop
      exact ⟨o, hkept o ho, by simpa using hid⟩
    have hfirst : Leaves (fun w => Sound owned w ∧ Listing x.host existing w)
          (if mine.content ≠ x.ip || mine.proxied ≠ x.proxied then
            updateRecord x.overwrite zone mine.id x.ip x.proxied else pure ()) (Sound owned) ∧
        Ensures (fun w => Sound owned w ∧ Listing x.host existing w)
          (if mine.content ≠ x.ip || mine.proxied ≠ x.proxied then
            updateRecord x.overwrite zone mine.id x.ip x.proxied else pure ())
          fun _ w => Sound owned w ∧ Settled x owned ⟨.ok, x.line, [x.managed zone mine.id]⟩ w := by
      split
      · exact update_mine hexisting htype hown x.line
      · rename_i hsame
        have hcontent : mine.content = x.ip := by
          by_contra hne
          simp [hne] at hsame
        refine ⟨leaves_pure _ fun w h => h.1, ensures_pure _ fun w h => ⟨h.1, h.1.rightful, ?_, ?_, ?_⟩⟩
        · intro p hp
          obtain rfl := mem_singleton.mp hp
          obtain ⟨o, ho, hid⟩ := hown
          exact (hid ▸ h.1.own o ho : Own w.log mine.id)
        · intro p hp
          obtain rfl := mem_singleton.mp hp
          exact Or.inl hown
        · intro _
          exact h.2.address hexisting htype hcontent
    exact ⟨hfirst.1.bind hfirst.2 fun _ => leaves_pure _ fun w h => h.1,
      hfirst.2.bind fun _ => ensures_pure _ fun w h => h⟩
  · split
    · exact hwarning _
    · split
      · rename_i other hhead
        obtain ⟨hexisting, htype⟩ := mem_filter.mp (List.mem_of_head? hhead)
        have htype : other.type = x.type := by simpa using htype
        split
        · rename_i hcontent
          refine ⟨leaves_pure _ fun w h => h.1, ensures_pure _ fun w h => ⟨h.1, h.1.rightful, ?_, ?_, ?_⟩⟩
          · intro p hp
            cases hp
          · intro p hp
            cases hp
          · intro _
            exact h.2.address hexisting htype hcontent
        · rename_i hcontent
          split
          · exact hwarning _
          · rename_i hoverwrite
            have hover : x.overwrite = true := by simpa using hoverwrite
            obtain ⟨hleaves, hensures⟩ := update_other owned zone hexisting htype
              hcontent hover (x.type.text ++ js " record " ++ x.host ++ js " updated from " ++
                other.content ++ js " to " ++ x.ip)
            exact ⟨hleaves.bind hensures fun _ => leaves_pure _ fun w h => h.1,
              hensures.bind fun _ => ensures_pure _ fun w h => h⟩
      · obtain ⟨hleaves, hensures⟩ := create_spec x owned existing zone (x.line ++ js " created")
        exact ⟨hleaves.bind hensures fun _ => leaves_pure _ fun w h => h.1,
          hensures.bind fun _ => ensures_pure _ fun w h => h⟩

end Settle

theorem findZone_spec (owned : List ManagedRecord) : Leaves (Sound owned) findZone (Sound owned) ∧
    Ensures (Sound owned) findZone fun _ => Sound owned := by
  have heffect : ∀ (w : World) (t : Turn) (a : Option Nat) (w' : World), Sound owned w →
      (Except.ok (t.zone, w.meet t) : Except Failure _) = .ok (a, w') → Sound owned w' := by
    intro w t a w' h heq
    obtain ⟨-, rfl⟩ := Prod.mk.inj (Except.ok.inj heq)
    exact h.meet t
  exact ⟨leaves_call (fun _ h => h) heffect, ensures_call heffect⟩

theorem listRecords_spec (owned : List ManagedRecord) (zone : Nat) (host : JsString) :
    Leaves (Sound owned) (listRecords zone host) (Sound owned) ∧
      Ensures (Sound owned) (listRecords zone host)
        fun existing w => Sound owned w ∧ Listing host existing w := by
  have heffect : ∀ (w : World) (t : Turn) (existing : List CfRecord) (w' : World), Sound owned w →
      (let w := w.meet t
       let found := (w.records.filter fun r => r.zone = zone && r.name = host).take 100
       (Except.ok (found, { w with listed := found }) : Except Failure _)) = .ok (existing, w') →
      Sound owned w' ∧ Listing host existing w' := by
    intro w t existing w' h heq
    obtain ⟨rfl, rfl⟩ := Prod.mk.inj (Except.ok.inj heq)
    have hmeet := h.meet t
    refine ⟨⟨hmeet.rightful, hmeet.own, hmeet.now⟩, rfl, (w.meet t).records, hmeet.now, ?_⟩
    intro r hr
    obtain ⟨hmem, hprop⟩ := mem_filter.mp (mem_of_mem_take hr)
    simp only [Bool.and_eq_true, decide_eq_true_eq] at hprop
    exact ⟨hmem, hprop.2⟩
  exact ⟨leaves_call (fun _ h => h) fun w t a w' h heq => (heffect w t a w' h heq).1, ensures_call heffect⟩

/-- An outcome that reports no success and hands the owned records on. -/
theorem Settled.unchanged {x : Wanted} (h : Sound owned w) {status : Status} (hstatus : status ≠ .ok)
    (message : JsString) : Settled x owned ⟨status, message, owned⟩ w where
  rightful := h.rightful
  own := h.own
  adopted o ho := Or.inl ⟨o, ho, rfl⟩
  address hok := absurd hok hstatus

/-- **One sync of a host record.** -/
theorem syncHostRecord_spec (owned : List ManagedRecord) (isIPv6 : JsString → Bool) (host ip : JsString)
    (proxied overwrite : Bool) :
    Leaves (Sound owned) (syncHostRecord isIPv6 host ip proxied overwrite owned) (Sound owned) ∧
      Ensures (Sound owned) (syncHostRecord isIPv6 host ip proxied overwrite owned) fun outcome w =>
        Settled ⟨if isIPv6 ip then .aaaa else .a, host, ip, proxied, overwrite⟩ owned outcome w := by
  generalize hx : (⟨if isIPv6 ip then .aaaa else .a, host, ip, proxied, overwrite⟩ : Wanted) = x
  have hhost : x.host = host := hx ▸ rfl
  unfold syncHostRecord
  rw [hx]
  have hlist := listRecords_spec owned
  have hbody : ∀ zone : Option Nat, Leaves (Sound owned) (match zone with
        | none => pure ⟨.warning, js "No Cloudflare zone found for " ++ host ++
            js " that this token can access", owned⟩
        | some zone => do
          let existing ← listRecords zone host
          deleteStale existing (owned.filter fun o => o.type ≠ x.type)
          settle x (owned.filter fun o => o.type = x.type) zone existing : Client DnsSyncOutcome)
        (Sound owned) ∧
      Ensures (Sound owned) (match zone with
        | none => pure ⟨.warning, js "No Cloudflare zone found for " ++ host ++
            js " that this token can access", owned⟩
        | some zone => do
          let existing ← listRecords zone host
          deleteStale existing (owned.filter fun o => o.type ≠ x.type)
          settle x (owned.filter fun o => o.type = x.type) zone existing : Client DnsSyncOutcome)
        fun outcome w => Settled x owned outcome w := by
    intro zone
    cases zone with
    | none =>
      exact ⟨leaves_pure _ fun _ h => h, ensures_pure _ fun w h => .unchanged h (by decide) _⟩
    | some zone =>
      have hrest : ∀ existing, Leaves (fun w => Sound owned w ∧ Listing host existing w) (do
            deleteStale existing (owned.filter fun o => o.type ≠ x.type)
            settle x (owned.filter fun o => o.type = x.type) zone existing) (Sound owned) ∧
          Ensures (fun w => Sound owned w ∧ Listing host existing w) (do
            deleteStale existing (owned.filter fun o => o.type ≠ x.type)
            settle x (owned.filter fun o => o.type = x.type) zone existing)
            fun outcome w => Settled x owned outcome w := by
        intro existing
        have hstale : ∀ o ∈ owned.filter fun o => o.type ≠ x.type, o ∈ owned :=
          fun o ho => (mem_filter.mp ho).1
        have hkept : ∀ o ∈ owned.filter fun o => o.type = x.type, o ∈ owned :=
          fun o ho => (mem_filter.mp ho).1
        obtain ⟨hstale, hstale'⟩ := deleteStale_spec owned host existing hstale
        obtain ⟨hsettle, hsettle'⟩ := settle_spec x owned existing zone hkept
        rw [hhost] at hsettle hsettle'
        refine ⟨Leaves.bind ?_ hstale' fun _ => hsettle, hstale'.bind fun _ => ?_⟩
        · exact fun w os h => (hstale w os h).1
        · exact hsettle'.conseq (fun _ h => h) fun _ _ h => h.2
      exact ⟨(hlist zone host).1.bind (hlist zone host).2 fun existing => (hrest existing).1,
        (hlist zone host).2.bind fun existing => (hrest existing).2⟩
  have htry := (findZone_spec owned).1.bind (findZone_spec owned).2 fun zone => (hbody zone).1
  refine ⟨htry.attempt fun failure => leaves_pure _ fun _ h => h, Ensures.attempt_leaves ?_ htry ?_⟩
  · exact (findZone_spec owned).2.bind fun zone => (hbody zone).2
  · intro failure
    exact ensures_pure _ fun w h => .unchanged h (by decide) _

/-- **One sync of a domain.** -/
theorem sync_spec (owned : List ManagedRecord) (isIPv6 : JsString → Bool) (host : JsString)
    (q : SyncRequest) :
    Leaves (Sound owned) (sync isIPv6 host q owned) (Sound owned) ∧
      Ensures (Sound owned) (sync isIPv6 host q owned) fun outcome w =>
        Rightful w.log ∧ (∀ o ∈ outcome.records, Own w.log o.recordId) ∧
          Lawful isIPv6 host q owned outcome w := by
  have hunchanged : ∀ (status : Status) (message : JsString), status ≠ .ok →
      Leaves (Sound owned) (pure ⟨status, message, owned⟩ : Client DnsSyncOutcome) (Sound owned) ∧
        Ensures (Sound owned) (pure ⟨status, message, owned⟩ : Client DnsSyncOutcome) fun outcome w =>
          Rightful w.log ∧ (∀ o ∈ outcome.records, Own w.log o.recordId) ∧
            Lawful isIPv6 host q owned outcome w := by
    intro status message hstatus
    refine ⟨leaves_pure _ fun _ h => h, ensures_pure _ fun w h => ⟨h.rightful, h.own, ?_, ?_⟩⟩
    · intro o ho
      exact Or.inl ⟨o, ho, rfl⟩
    · intro hok
      exact absurd hok hstatus
  unfold sync
  split
  · exact hunchanged _ _ (by decide)
  · exact hunchanged _ _ (by decide)
  · rename_i ip hip
    split
    · obtain ⟨hleaves, hensures⟩ := syncHostRecord_spec owned isIPv6 host ip q.proxied q.overwrite
      refine ⟨hleaves, hensures.conseq (fun _ h => h) ?_⟩
      intro outcome w h
      refine ⟨h.rightful, h.own, ?_, ?_⟩
      · intro o ho
        rcases h.adopted o ho with hold | hcreated | ⟨hover, r, hr, hid, hcontent⟩
        · exact Or.inl hold
        · exact Or.inr (Or.inl hcreated)
        · refine Or.inr (Or.inr ⟨hover, r, hr, hid, ?_⟩)
          rw [hip]
          intro he
          exact hcontent (Option.some.inj (Option.some.inj he)).symm
      · intro hok
        exact ⟨ip, hip, h.address hok⟩
    · exact hunchanged _ _ (by decide)

/-- **A removal deletes aoox's own records and nothing else.** -/
theorem removeManagedRecords_spec {records : List ManagedRecord} (hrecords : ∀ o ∈ records, o ∈ owned) :
    Leaves (Sound owned) (removeManagedRecords records) (Sound owned) ∧
      Ensures (Sound owned) (removeManagedRecords records) fun _ => Sound owned := by
  induction records with
  | nil => exact ⟨leaves_pure _ fun _ h => h, ensures_pure _ fun _ h => h⟩
  | cons r rest ih =>
    obtain ⟨ihleaves, ihensures⟩ := ih fun o ho => hrecords o (mem_cons_of_mem _ ho)
    obtain ⟨hdelete, hdelete'⟩ := deleteRecord_effect r.zoneId r.recordId
      (P := Sound owned) (by
        intro w t h
        have hmeet := h.meet t
        exact (hmeet.become _).wrote ⟨hmeet.own r (hrecords r mem_cons_self), hmeet.rightful⟩)
    have htry : Leaves (Sound owned) (do
          deleteRecord r.zoneId r.recordId
          return none : Client (Option JsString)) (Sound owned) :=
      hdelete.bind hdelete' fun _ => leaves_pure _ fun _ h => h
    have htry' : Ensures (Sound owned) (do
          deleteRecord r.zoneId r.recordId
          return none : Client (Option JsString)) fun _ => Sound owned :=
      hdelete'.bind fun _ => ensures_pure _ fun _ h => h
    have hcaught := fun handler : Failure → Option JsString => Ensures.attempt_leaves htry' htry
      fun failure => ensures_pure (handler failure) fun _ h => h
    refine ⟨Leaves.bind (htry.attempt fun _ => leaves_pure _ fun _ h => h) (hcaught _) fun error => ?_,
      (hcaught _).bind fun error => ?_⟩
    · exact ihleaves.bind ihensures fun answer => leaves_pure _ fun _ h => h
    · exact ihensures.bind fun answer => ensures_pure _ fun _ h => h

/-! ## Sequences of calls -/

/-- What holds between two calls. -/
structure Kept (s : State) : Prop where
  rightful : Rightful s.world.log
  own : ∀ o ∈ s.owned, Own s.world.log o.recordId

theorem Kept.begin {s : State} (h : Kept s) : Sound s.owned s.world.begin :=
  ⟨h.rightful, h.own, mem_cons_self⟩

theorem Kept.of_sound {s : State} (h : Sound s.owned w) : Kept ⟨w, s.owned⟩ := ⟨h.rightful, h.own⟩

theorem Kept.call {isIPv6 : JsString → Bool} {host : JsString} {s : State} (h : Kept s)
    (c : Call × List (Outcome Failure Turn)) : Kept (runCall isIPv6 host s c) := by
  obtain ⟨c, os⟩ := c
  cases c with
  | sync q =>
    obtain ⟨hleaves, hensures⟩ := sync_spec s.owned isIPv6 host q
    have hend := hleaves s.world.begin os h.begin
    have hreturned := fun outcome w rest => hensures s.world.begin os outcome w rest h.begin
    simp only [runCall]
    generalize sync isIPv6 host q s.owned s.world.begin os = run at hend hreturned ⊢
    obtain ⟨result, w, rest⟩ := run
    cases result with
    | returned outcome =>
      obtain ⟨hrightful, hown, -⟩ := hreturned outcome w rest rfl
      exact ⟨hrightful, hown⟩
    | thrown failure => exact .of_sound hend
    | dead => exact .of_sound hend
  | remove =>
    obtain ⟨hleaves, -⟩ := @removeManagedRecords_spec s.owned s.owned fun _ ho => ho
    have hend := hleaves s.world.begin os h.begin
    simp only [runCall]
    generalize removeManagedRecords s.owned s.world.begin os = run at hend ⊢
    obtain ⟨result, w, rest⟩ := run
    cases result with
    | returned answer => exact ⟨hend.rightful, fun o ho => by (cases ho)⟩
    | thrown failure => exact .of_sound hend
    | dead => exact .of_sound hend

theorem kept_runCalls (isIPv6 : JsString → Bool) (host : JsString) (records : List CfRecord)
    (calls : List (Call × List (Outcome Failure Turn))) : Kept (runCalls isIPv6 host records calls) := by
  unfold runCalls
  -- from the end: what a call starts with is what the history before it has left
  induction calls using reverseRecOn with
  | nil => exact ⟨trivial, fun o ho => by (cases ho)⟩
  | append_singleton calls c ih =>
    rw [foldl_append]
    exact ih.call c

/-- **Every sequence of syncs and removals.**  All that aoox has updated or deleted was its
own or taken over with `overwrite`; and a further sync that returns is lawful. -/
theorem syncs_lawful (isIPv6 : JsString → Bool) (host : JsString) (records : List CfRecord)
    (calls : List (Call × List (Outcome Failure Turn))) :
    Rightful (runCalls isIPv6 host records calls).world.log ∧
      ∀ q os outcome w rest, sync isIPv6 host q (runCalls isIPv6 host records calls).owned
          (runCalls isIPv6 host records calls).world.begin os = (.returned outcome, w, rest) →
        Lawful isIPv6 host q (runCalls isIPv6 host records calls).owned outcome w := by
  have hkept := kept_runCalls isIPv6 host records calls
  refine ⟨hkept.rightful, ?_⟩
  intro q os outcome w rest hrun
  exact ((sync_spec _ isIPv6 host q).2 _ os outcome w rest hkept.begin hrun).2.2

def appHost : JsString := js "app.example.org"

/-- A record of somebody else. -/
def foreign (name content : JsString) : CfRecord := ⟨7, 1, .a, name, content, false⟩

def elsewhere : List CfRecord := [foreign appHost (js "9.9.9.9")]

/-- The host shall point at 1.2.3.4, whatever is there. -/
def overwriting : SyncRequest := ⟨some (some (js "1.2.3.4")), true, false, true⟩

/-- The three calls of a sync; `late` is what others have made of the records before the
last one. -/
def threeCalls (late : List CfRecord) : List (Outcome Failure Turn) :=
  [.ok ⟨elsewhere, some 1, 0⟩, .ok ⟨elsewhere, none, 0⟩, .ok ⟨late, none, 0⟩]

/-- A record of somebody else is taken over. -/
theorem lawful_overwriting : ∃ outcome w rest,
    sync (fun _ => false) appHost overwriting (runCalls (fun _ => false) appHost elsewhere []).owned
        (runCalls (fun _ => false) appHost elsewhere []).world.begin (threeCalls elsewhere) =
      (.returned outcome, w, rest) ∧
      Lawful (fun _ => false) appHost overwriting
        (runCalls (fun _ => false) appHost elsewhere []).owned outcome w := by
  refine ⟨_, _, _, rfl, ?_⟩
  exact (syncs_lawful (fun _ => false) appHost elsewhere []).2 overwriting (threeCalls elsewhere) _ _ _ rfl

/-! ## Between the listing and the update -/

/-- A record that a sync adopts did not have the wanted content when it was taken over. -/
def AdoptsOthers (q : SyncRequest) (owned : List ManagedRecord) (outcome : DnsSyncOutcome) (w : World) :
    Prop :=
  ∀ o ∈ outcome.records, (∃ p ∈ owned, p.recordId = o.recordId) ∨ .create o.recordId ∈ w.log ∨
    ∀ overwrite before, w.log.head? = some (.update o.recordId overwrite before) →
      q.expected ≠ some (some before)

/-- When a sync reports ok, there was a record of the host and type with the address. -/
def HadAddress (isIPv6 : JsString → Bool) (host : JsString) (q : SyncRequest) (outcome : DnsSyncOutcome)
    (w : World) : Prop :=
  ∀ ip, q.expected = some (some ip) → outcome.status = .ok →
    w.moments.any (fun m => m.any fun r =>
      r.name = host && r.type = (if isIPv6 ip then .aaaa else .a) && r.content = ip) = true

/-- **A listing can be out of date.**  Somebody gives the record another name between the
listing and the update, and no record of the host ever has the address; somebody gives it
the wanted content, and it is adopted all the same. -/
theorem listing_outdated :
    (¬ ∀ calls q os outcome w rest,
      sync (fun _ => false) appHost q (runCalls (fun _ => false) appHost elsewhere calls).owned
          (runCalls (fun _ => false) appHost elsewhere calls).world.begin os =
        (.returned outcome, w, rest) → HadAddress (fun _ => false) appHost q outcome w) ∧
      ¬ ∀ calls q os outcome w rest,
        sync (fun _ => false) appHost q (runCalls (fun _ => false) appHost elsewhere calls).owned
            (runCalls (fun _ => false) appHost elsewhere calls).world.begin os =
          (.returned outcome, w, rest) →
        AdoptsOthers q (runCalls (fun _ => false) appHost elsewhere calls).owned outcome w := by
  constructor
  · intro h
    have hrun := h [] overwriting (threeCalls [foreign (js "old.example.org") (js "9.9.9.9")]) _ _ _ rfl
    exact absurd (hrun _ rfl rfl) (by decide)
  · intro h
    have hrun := h [] overwriting (threeCalls [foreign appHost (js "1.2.3.4")]) _ _ _ rfl
    rcases hrun _ List.mem_cons_self with ⟨p, hp, -⟩ | hcreated | hbefore
    · cases hp
    · exact absurd hcreated (by decide)
    · exact hbefore true (js "1.2.3.4") rfl rfl

end Aoox.Dns
