import Aoox.JsString
import Aoox.Runs
import Mathlib.Data.List.Sort

/-! # Outages of an HTTP monitor

A monitor counts failed checks in a row, calls the application down when the count
reaches a threshold, and keeps an incident row and sends an alert for every outage.  The
rule is one pure function (`nextState`); around it, the check, saving the configuration
and the minute's tick each write the status, the counter and the incidents.

The invariant (`Inv`) couples them: the counter is the length of the current streak of
failed checks, these are the newest checks, and the incidents that are open are one that
starts with the streak when the monitor is down, and none otherwise.  It is kept by every
step but two: a check dated before a stored one, and saving that turns a monitor on while
it is down.  The second is reached by "check now", which runs on a monitor that is off:
turning it on puts the status back to unknown and leaves the incident open.
-/
open List Option
namespace Aoox.Monitor

open JsString

/-! ## Rows -/

abbrev Time := Nat

inductive Status where
  | unknown | up | down
  deriving DecidableEq, Repr

structure Config where
  enabled : Bool
  path : JsString
  (intervalMinutes timeoutSeconds : Nat)
  expectedCodes : JsString
  failureThreshold : Nat
  useInternal : Bool
  deriving DecidableEq

def defaultConfig : Config := ⟨false, js "/", 5, 10, js "200-399", 2, false⟩

/-- The live state, which the row carries as well. -/
structure Live where
  status : Status
  consecutiveFailures : Nat
  (statusSince lastCheckedAt : Option Time)
  (lastStatusCode lastLatencyMs : Option Nat)
  (lastError lastTarget : Option JsString)
  lastAlertAt : Option Time

/-- The columns of a new row. -/
def newLive : Live := ⟨.unknown, 0, none, none, none, none, none, none, none⟩

structure Row where
  config : Config
  live : Live

/-- A stored result. -/
structure Check where
  time : Time
  ok : Bool

structure Incident where
  id : Nat
  startedAt : Time
  endedAt : Option Time
  reason : Option JsString
  failedChecks : Nat

def Incident.isOpen (i : Incident) : Bool := i.endedAt.isNone

/-! ## The rule -/

inductive Event where
  | down | recovered
  deriving Repr

structure Transition where
  status : Status
  consecutiveFailures : Nat
  event : Option Event

def nextState (prev : Live) (ok : Bool) (threshold : Nat) : Transition :=
  if ok then ⟨.up, 0, if prev.status = .down then some .recovered else none⟩
  else
    let failures := prev.consecutiveFailures + 1
    if threshold ≤ failures then ⟨.down, failures, if prev.status = .down then none else some .down⟩
    else ⟨prev.status, failures, none⟩

/-- While an application stays down, a reminder at most this often. -/
def realertMs : Nat := 6 * 60 * 60000

def shouldRealert (lastAlertAt : Option Time) (now : Time) : Bool :=
  match lastAlertAt with
  | none => true
  | some t => realertMs ≤ now - t

/-! ## Operations -/

inductive Kind where
  | down | recovered | stillDown
  deriving Repr

structure Message where
  kind : Kind
  since : Option Time
  failedChecks : Nat
  error : Option JsString

structure Tables where
  monitor : Option Row
  checks : List Check
  incidents : List Incident
  sent : List Message

/-- The fields a request gives. -/
structure ConfigPatch where
  enabled : Option Bool
  path : Option JsString
  (intervalMinutes timeoutSeconds : Option Nat)
  expectedCodes : Option JsString
  failureThreshold : Option Nat
  useInternal : Option Bool

/-- `Object.assign`. -/
def Config.assign (c : Config) (p : ConfigPatch) : Config :=
  ⟨p.enabled.getD c.enabled, p.path.getD c.path, p.intervalMinutes.getD c.intervalMinutes,
    p.timeoutSeconds.getD c.timeoutSeconds, p.expectedCodes.getD c.expectedCodes,
    p.failureThreshold.getD c.failureThreshold, p.useInternal.getD c.useInternal⟩

/-- Closes every open incident. -/
def closeAll (incidents : List Incident) (now : Time) : List Incident :=
  incidents.map fun i => if i.isOpen then { i with endedAt := some now } else i

/-- Back to "not checked". -/
def Live.reset (l : Live) : Live :=
  { l with status := .unknown, consecutiveFailures := 0, statusSince := none }

/-- What a save makes of the row, and whether it closes open incidents. -/
def saveRow (existing : Option Row) (input : ConfigPatch) : Row × Bool :=
  let row := existing.getD ⟨defaultConfig, newLive⟩
  let config := row.config.assign input
  if config.enabled = false ∧ (row.config.enabled = true ∨ existing.isSome = true) then
    (⟨config, row.live.reset⟩, existing.isSome)
  else if config.enabled = true ∧ row.config.enabled = false then
    (⟨config, { row.live.reset with lastCheckedAt := none }⟩, false)
  else (⟨config, row.live⟩, false)

def saveConfig (t : Tables) (input : ConfigPatch) (now : Time) : Tables :=
  let (row, closes) := saveRow t.monitor input
  { t with
    monitor := some row
    incidents := if closes then closeAll t.incidents now else t.incidents }

/-- The newest `n` checks by time, newest first. -/
def newestTimes (checks : List Check) (n : Nat) : List Time :=
  ((checks.map Check.time).insertionSort (· ≥ ·)).take n

def latestOpen (incidents : List Incident) : Option Incident :=
  ((incidents.filter Incident.isOpen).insertionSort fun i j => i.startedAt ≥ j.startedAt).head?

def closeById (incidents : List Incident) (id : Nat) (now : Time) : List Incident :=
  incidents.map fun i => if i.id = id then { i with endedAt := some now } else i

def transition (checks : List Check) (incidents : List Incident) (live : Live) (event : Option Event)
    (error : Option JsString) (now : Time) : List Incident × Live × Option Message :=
  match event with
  | some .down =>
    let startedAt := ((newestTimes checks live.consecutiveFailures).getLast?).getD now
    (incidents ++ [⟨incidents.length, startedAt, none, error, live.consecutiveFailures⟩],
      { live with statusSince := some startedAt, lastAlertAt := some now },
      some ⟨.down, some startedAt, live.consecutiveFailures, error⟩)
  | some .recovered =>
    let open? := latestOpen incidents
    ((match open? with
      | some i => closeById incidents i.id now
      | none => incidents),
      { live with lastAlertAt := none, statusSince := some now },
      some ⟨.recovered, open?.map Incident.startedAt, live.consecutiveFailures, none⟩)
  | none =>
    if live.status = .down ∧ shouldRealert live.lastAlertAt now = true then
      (incidents, { live with lastAlertAt := some now },
        some ⟨.stillDown, live.statusSince, live.consecutiveFailures, error⟩)
    else (incidents, live, none)

/-- What a probe found. -/
structure Result where
  ok : Bool
  statusCode : Option Nat
  latencyMs : Nat
  error : Option JsString
  target : JsString

/-- The live columns after a probe, before the bookkeeping. -/
def Live.probed (l : Live) (threshold : Nat) (r : Result) (now : Time) : Live :=
  let t := nextState l r.ok threshold
  { l with
    status := t.status
    consecutiveFailures := t.consecutiveFailures
    statusSince := if t.status ≠ l.status then some now else l.statusSince
    lastCheckedAt := some now
    lastStatusCode := r.statusCode
    lastLatencyMs := some r.latencyMs
    lastError := r.error
    lastTarget := some (sliceTo r.target 300) }

def check (t : Tables) (row : Row) (r : Result) (now : Time) : Tables :=
  let checks := t.checks ++ [⟨now, r.ok⟩]
  let event := (nextState row.live r.ok row.config.failureThreshold).event
  let live := row.live.probed row.config.failureThreshold r now
  let (incidents, live, message) := transition checks t.incidents live event r.error now
  { monitor := some { row with live }
    checks := checks
    incidents := incidents
    sent := t.sent ++ message.toList }

/-- A check that finds nothing to probe is no result. -/
def noTarget (row : Row) (error : JsString) (now : Time) : Row :=
  { row with
    live := { row.live with
      lastCheckedAt := some now
      lastError := some error
      lastTarget := none
      lastStatusCode := none
      lastLatencyMs := none } }

def tickStopped (t : Tables) (row : Row) (now : Time) : Tables :=
  if row.live.status ≠ .unknown then
    { t with
      monitor := some { row with live := row.live.reset }
      incidents := closeAll t.incidents now }
  else t

/-- The tick finds the application being deployed: a streak that straddles a deploy means
nothing, an outage stays. -/
def tickDeploying (t : Tables) (row : Row) : Tables :=
  if row.live.status ≠ .down ∧ 0 < row.live.consecutiveFailures then
    { t with monitor := some { row with live := { row.live with consecutiveFailures := 0 } } }
  else t

/-! ## Runs -/

inductive Action where
  | save (input : ConfigPatch) (now : Time)
  /-- A scheduled check, or "check now", which a monitor that is off allows as well. -/
  | check (r : Result) (now : Time)
  | noTarget (error : JsString) (now : Time)
  | stopped (now : Time)
  | deploying

def status (t : Tables) : Status := (t.monitor.map fun m => m.live.status).getD .unknown

def failures (t : Tables) : Nat := (t.monitor.map fun m => m.live.consecutiveFailures).getD 0

/-- What one operation makes of the tables. -/
def perform (t : Tables) : Action → Option Tables
  | .save input now => some (saveConfig t input now)
  | .check r now => t.monitor.map fun m => check t m r now
  | .noTarget error now => t.monitor.map fun m => { t with monitor := some (noTarget m error now) }
  | .stopped now => t.monitor.bind fun m => if m.config.enabled then some (tickStopped t m now) else none
  | .deploying => t.monitor.bind fun m => if m.config.enabled then some (tickDeploying t m) else none

structure Outage where
  (downs recoveries : Nat)

/-- What an observer writes down; no operation reads it. -/
structure History where
  /-- The times of the failed checks since the last healthy one or the last reset of the
  counter. -/
  streak : List Time
  /-- The outages so far, the newest first. -/
  outages : List Outage
  /-- Alerts before any outage. -/
  stray : Nat

def History.alert (h : History) (count : Outage → Outage) : History :=
  match h.outages with
  | [] => { h with stray := h.stray + 1 }
  | o :: os => { h with outages := count o :: os }

/-- A message counts for the newest outage; a reminder is neither of the two alerts. -/
def History.receive (h : History) (m : Message) : History :=
  match m.kind with
  | .down => h.alert fun o => { o with downs := o.downs + 1 }
  | .recovered => h.alert fun o => { o with recoveries := o.recoveries + 1 }
  | .stillDown => h

def streakAfter (streak : List Time) (a : Action) (after : Tables) : List Time :=
  match a with
  | .check r now => if r.ok then [] else streak ++ [now]
  | _ => if failures after = 0 then [] else streak

/-- An outage begins when the status becomes down. -/
def History.observe (h : History) (before after : Tables) (a : Action) : History :=
  let outages := if status before ≠ .down ∧ status after = .down then ⟨0, 0⟩ :: h.outages else h.outages
  (after.sent.drop before.sent.length).foldl History.receive
    { h with streak := streakAfter h.streak a after, outages }

structure World where
  tables : Tables
  history : History

def step (w : World) (a : Action) : Option World :=
  (perform w.tables a).map fun t => ⟨t, w.history.observe w.tables t a⟩

/-- An application without a monitor. -/
def initial : World := ⟨⟨none, [], [], []⟩, ⟨[], [], 0⟩⟩

/-! ## The property -/

def openIncidents (t : Tables) : List Incident := t.incidents.filter Incident.isOpen

structure Accounted (w : World) : Prop where
  down_iff : status w.tables = .down ↔ ∃ i, openIncidents w.tables = [i]
  started : ∀ i ∈ openIncidents w.tables, w.history.streak.head? = some i.startedAt
  /-- Each outage sent one down alert and at most one recovery. -/
  alerts : w.history.stray = 0 ∧ ∀ o ∈ w.history.outages, o.downs = 1 ∧ o.recoveries ≤ 1

/-- An incident is closed exactly when the monitor stops being down: it recovers or is
reset. -/
def ClosesWithOutage (before after : Tables) : Prop :=
  (∃ i ∈ before.incidents, i.isOpen = true ∧ ∃ j ∈ after.incidents, j.id = i.id ∧ j.isOpen = false) ↔
    (status before = .down ∧ status after ≠ .down)

/-- The condition on a step: a check is later than the stored ones, and a monitor is not
turned on while it is down. -/
def InOrder (w : World) : Action → Prop
  | .check _ now => ∀ c ∈ w.tables.checks, c.time < now
  | .save input _ => ∀ m, w.tables.monitor = some m → m.config.enabled = false →
      (m.config.assign input).enabled = true → m.live.status ≠ .down
  | .noTarget _ _ | .stopped _ | .deploying => True

/-! ## The invariant -/

structure Inv (w : World) : Prop where
  times : (w.tables.checks.map Check.time).Pairwise (· < ·)
  counted : w.history.streak.length = failures w.tables
  newest : w.history.streak <:+ w.tables.checks.map Check.time
  ids : w.tables.incidents.map Incident.id = List.range w.tables.incidents.length
  isDown : status w.tables = .down →
    ∃ i, openIncidents w.tables = [i] ∧ w.history.streak.head? = some i.startedAt
  notDown : status w.tables ≠ .down → openIncidents w.tables = []
  stray : w.history.stray = 0
  alerted : ∀ o ∈ w.history.outages, o.downs = 1 ∧ o.recoveries ≤ 1
  current : status w.tables = .down → ∃ o os, w.history.outages = o :: os ∧ o.recoveries = 0

theorem initial_inv : Inv initial := by
  constructor <;> simp [initial, status, failures, openIncidents]

variable {w : World}

theorem Inv.accounted (h : Inv w) : Accounted w where
  down_iff := by
    constructor
    · intro hdown
      obtain ⟨i, hi, -⟩ := h.isDown hdown
      exact ⟨i, hi⟩
    · rintro ⟨i, hi⟩
      by_contra hne
      rw [h.notDown hne] at hi
      cases hi
  started := by
    intro i hi
    by_cases hdown : status w.tables = .down
    · obtain ⟨j, hj, hhead⟩ := h.isDown hdown
      rw [hj, mem_singleton] at hi
      exact hi ▸ hhead
    · rw [h.notDown hdown] at hi
      cases hi
  alerts := ⟨h.stray, h.alerted⟩

/-! ### Queries -/

variable {checks : List Check}

/-- Times that increase come back reversed. -/
theorem newestTimes_eq (h : (checks.map Check.time).Pairwise (· < ·)) (n : Nat) :
    newestTimes checks n = ((checks.map Check.time).reverse).take n := by
  have hsorted : ((checks.map Check.time).reverse).Pairwise (· ≥ ·) := by
    rw [pairwise_reverse]
    exact h.imp Nat.le_of_lt
  have hperm : ((checks.map Check.time).insertionSort (· ≥ ·)).Perm (checks.map Check.time).reverse :=
    (perm_insertionSort _ _).trans (reverse_perm _).symm
  unfold newestTimes
  rw [hperm.eq_of_pairwise' (pairwise_insertionSort _ _) hsorted]

theorem oldest_newest (h : (checks.map Check.time).Pairwise (· < ·)) {streak : List Time}
    (hsuffix : streak <:+ checks.map Check.time) :
    (newestTimes checks streak.length).getLast? = streak.head? := by
  rw [newestTimes_eq h]
  obtain ⟨pre, hpre⟩ := hsuffix
  rw [← hpre, reverse_append, take_append_of_le_length (by simp),
    take_of_length_le (by simp), getLast?_reverse]

theorem openIncidents_closeAll (incidents : List Incident) (now : Time) :
    (closeAll incidents now).filter Incident.isOpen = [] := by
  rw [filter_eq_nil_iff]
  intro i hi
  obtain ⟨j, -, rfl⟩ := mem_map.mp hi
  cases hj : j.isOpen with
  | true => simp [Incident.isOpen]
  | false => simp [hj]

theorem closeAll_ids (incidents : List Incident) (now : Time) :
    (closeAll incidents now).map Incident.id = incidents.map Incident.id := by
  unfold closeAll
  rw [List.map_map]
  refine map_congr_left fun i _ => ?_
  simp only [Function.comp_apply]
  split <;> rfl

theorem length_closeAll (incidents : List Incident) (now : Time) :
    (closeAll incidents now).length = incidents.length := by simp [closeAll]

variable {incidents : List Incident} {i : Incident}

/-- With one incident open, closing it is closing all. -/
theorem closeById_eq (hids : (incidents.map Incident.id).Nodup)
    (hopen : incidents.filter Incident.isOpen = [i]) (now : Time) :
    closeById incidents i.id now = closeAll incidents now := by
  have hmem : ∀ j, j ∈ incidents → j.isOpen = true → j = i := by
    intro j hj hopen'
    have : j ∈ incidents.filter Incident.isOpen := mem_filter.mpr ⟨hj, hopen'⟩
    rw [hopen, mem_singleton] at this
    exact this
  have hi := mem_filter.mp (hopen ▸ mem_singleton_self i)
  refine map_congr_left fun j hj => ?_
  cases hj' : j.isOpen with
  | true => simp [hmem j hj hj']
  | false =>
    have hne : j.id ≠ i.id := by
      intro he
      have := inj_on_of_nodup_map hids hj hi.1 he
      rw [this, hi.2] at hj'
      cases hj'
    simp [hne]

theorem latestOpen_eq
    (hopen : incidents.filter Incident.isOpen = [i]) : latestOpen incidents = some i := by
  simp [latestOpen, hopen]

/-! ### What a step does to the incidents -/

/-- Incidents are left alone, one is opened as the monitor goes down, or all are closed and it
is not down. -/
inductive Effect (before after : Tables) : Prop where
  | same (hincidents : after.incidents = before.incidents)
      (hstatus : status after = .down ↔ status before = .down)
  | opened (i : Incident) (hincidents : after.incidents = before.incidents ++ [i])
      (hid : i.id = before.incidents.length) (hopen : i.isOpen = true)
      (hbefore : status before ≠ .down) (hafter : status after = .down)
  | closed (now : Time) (hincidents : after.incidents = closeAll before.incidents now)
      (hafter : status after ≠ .down)

variable {before after : Tables}

theorem Effect.ids (h : Effect before after)
    (hids : before.incidents.map Incident.id = List.range before.incidents.length) :
    after.incidents.map Incident.id = List.range after.incidents.length := by
  cases h with
  | same hincidents _ => rw [hincidents, hids]
  | opened i hincidents hid _ _ _ =>
    rw [hincidents, map_append, hids, length_append, map_singleton, hid,
      length_singleton, range_succ]
  | closed now hincidents _ => rw [hincidents, closeAll_ids, length_closeAll, hids]

theorem Effect.notDown (h : Effect before after)
    (hopen : status before ≠ .down → openIncidents before = []) (hafter : status after ≠ .down) :
    openIncidents after = [] := by
  unfold openIncidents at hopen ⊢
  cases h with
  | same hincidents hstatus =>
    rw [hincidents]
    exact hopen fun hd => hafter (hstatus.mpr hd)
  | opened i _ _ _ _ hd => exact absurd hd hafter
  | closed now hincidents _ =>
    rw [hincidents]
    exact openIncidents_closeAll _ now

/-- What the invariant says of the incidents makes each step close them with the outage. -/
theorem Effect.closesWithOutage (h : Effect before after)
    (hids : before.incidents.map Incident.id = List.range before.incidents.length)
    (hdown : status before = .down → ∃ i, openIncidents before = [i])
    (hopen : status before ≠ .down → openIncidents before = []) :
    ClosesWithOutage before after := by
  have hnodup : (before.incidents.map Incident.id).Nodup := hids ▸ nodup_range
  have hclash : ∀ i ∈ before.incidents, i.isOpen = true → ∀ j ∈ before.incidents, j.id = i.id →
      j.isOpen = false → False := by
    intro i hi hio j hj he hjc
    rw [inj_on_of_nodup_map hnodup hj hi he, hio] at hjc
    cases hjc
  cases h with
  | same hincidents hstatus =>
    constructor
    · rintro ⟨i, hi, hio, j, hj, he, hjc⟩
      exact (hclash i hi hio j (hincidents ▸ hj) he hjc).elim
    · rintro ⟨hd, hnd⟩
      exact absurd (hstatus.mpr hd) hnd
  | opened new hincidents hid _ hbefore hafter =>
    constructor
    · rintro ⟨i, hi, hio, j, hj, he, hjc⟩
      rw [hincidents, mem_append, mem_singleton] at hj
      rcases hj with hj | rfl
      · exact (hclash i hi hio j hj he hjc).elim
      · have hlt : i.id ∈ List.range before.incidents.length := hids ▸ mem_map_of_mem hi
        rw [mem_range] at hlt
        omega
    · rintro ⟨hd, -⟩
      exact absurd hd hbefore
  | closed now hincidents hafter =>
    constructor
    · rintro ⟨i, hi, hio, -⟩
      refine ⟨?_, hafter⟩
      by_contra hnd
      have : i ∈ openIncidents before := mem_filter.mpr ⟨hi, hio⟩
      rw [hopen hnd] at this
      cases this
    · rintro ⟨hd, -⟩
      obtain ⟨i, hi⟩ := hdown hd
      obtain ⟨him, hio⟩ := mem_filter.mp (hi ▸ mem_singleton_self i : i ∈ openIncidents before)
      refine ⟨i, him, hio, { i with endedAt := some now }, ?_, rfl, rfl⟩
      rw [hincidents]
      exact mem_map.mpr ⟨i, him, by simp [hio]⟩

/-! ### Steps that send nothing -/

variable {a : Action}

theorem observe_silent {h : History} (hsent : after.sent = before.sent)
    (hstatus : status after = .down → status before = .down) :
    h.observe before after a = { h with streak := streakAfter h.streak a after } := by
  have hstart : ¬ (status before ≠ .down ∧ status after = .down) := fun hs => hs.1 (hstatus hs.2)
  unfold History.observe
  rw [if_neg hstart, hsent, drop_length]
  rfl

variable {t : Tables}

/-- Saves and ticks: the counter stays or goes back to 0, and stays while the monitor is
down. -/
theorem Inv.silent (hw : Inv w)
    (ha : streakAfter w.history.streak a t = if failures t = 0 then [] else w.history.streak)
    (hchecks : t.checks = w.tables.checks) (hsent : t.sent = w.tables.sent)
    (heffect : Effect w.tables t) (hstays : status t = .down → status w.tables = .down)
    (hcount : failures t = 0 ∨ failures t = failures w.tables)
    (hkeep : status t = .down → failures t = failures w.tables) :
    Inv ⟨t, w.history.observe w.tables t a⟩ ∧ Effect w.tables t := by
  refine ⟨?_, heffect⟩
  rw [observe_silent hsent hstays, ha]
  have hstreak : failures t = failures w.tables →
      (if failures t = 0 then [] else w.history.streak) = w.history.streak := by
    intro he
    split
    · rename_i hzero
      have := hw.counted
      rw [← he, hzero] at this
      exact (length_eq_zero_iff.mp this).symm
    · rfl
  have hif : (if failures t = 0 then [] else w.history.streak) = [] ∨
      (if failures t = 0 then [] else w.history.streak) = w.history.streak := by
    split
    · exact Or.inl rfl
    · exact Or.inr rfl
  exact {
    times := hchecks ▸ hw.times
    counted := by
      show (if failures t = 0 then [] else w.history.streak).length = failures t
      rcases hcount with hzero | he
      · rw [if_pos hzero, hzero]
        rfl
      · rw [hstreak he, he]
        exact hw.counted
    newest := by
      show (if failures t = 0 then [] else w.history.streak) <:+ t.checks.map Check.time
      rw [hchecks]
      rcases hif with he | he
      · rw [he]
        exact nil_suffix
      · rw [he]
        exact hw.newest
    ids := heffect.ids hw.ids
    isDown := by
      intro hd
      have hbefore := hstays hd
      obtain ⟨i, hi, hhead⟩ := hw.isDown hbefore
      refine ⟨i, ?_, ?_⟩
      · cases heffect with
        | same hincidents _ =>
          unfold openIncidents at hi ⊢
          rw [hincidents]
          exact hi
        | opened _ _ _ _ hnd _ => exact absurd hbefore hnd
        | closed _ _ hnd => exact absurd hd hnd
      · show (if failures t = 0 then [] else w.history.streak).head? = some i.startedAt
        rw [hstreak (hkeep hd)]
        exact hhead
    notDown := heffect.notDown hw.notDown
    stray := hw.stray
    alerted := hw.alerted
    current := fun hd => hw.current (hstays hd) }

/-! ### Saves and ticks -/

variable {m : Row}

theorem status_some (h : t.monitor = some m) : status t = m.live.status := by
  simp [status, h]

theorem failures_some (h : t.monitor = some m) :
    failures t = m.live.consecutiveFailures := by simp [failures, h]

/-- A save turns the monitor off, turns it on, or leaves the live columns alone. -/
theorem saveConfig_cases (t : Tables) (input : ConfigPatch) (now : Time) :
    (∃ row, saveConfig t input now =
        { t with monitor := some row, incidents := closeAll t.incidents now } ∧
      row.live.status = .unknown ∧ row.live.consecutiveFailures = 0) ∨
    (∃ row, saveConfig t input now = { t with monitor := some row } ∧
      row.live.status = .unknown ∧ row.live.consecutiveFailures = 0 ∧
      ∀ m, t.monitor = some m → m.config.enabled = false ∧ (m.config.assign input).enabled = true) ∨
    (∃ row, saveConfig t input now = { t with monitor := some row } ∧
      row.live.status = status t ∧ row.live.consecutiveFailures = failures t) := by
  have hdefault : defaultConfig.enabled = false := rfl
  unfold saveConfig saveRow
  cases hm : t.monitor with
  | none =>
    cases hen : (defaultConfig.assign input).enabled with
    | false =>
      right; right
      refine ⟨⟨defaultConfig.assign input, newLive⟩, ?_, ?_, ?_⟩
      · simp [hen, hdefault]
      · simp [status, hm, newLive]
      · simp [failures, hm, newLive]
    | true =>
      right; left
      refine ⟨⟨defaultConfig.assign input, { newLive.reset with lastCheckedAt := none }⟩, ?_, rfl, rfl, ?_⟩
      · simp [hen, hdefault]
      · intro m h
        cases h
  | some m =>
    cases hen : (m.config.assign input).enabled with
    | false =>
      left
      exact ⟨⟨m.config.assign input, m.live.reset⟩, by simp [hen], rfl, rfl⟩
    | true =>
      cases hwas : m.config.enabled with
      | false =>
        right; left
        refine ⟨⟨m.config.assign input, { m.live.reset with lastCheckedAt := none }⟩, by simp [hen, hwas],
          rfl, rfl, ?_⟩
        intro m' h
        cases h
        exact ⟨hwas, hen⟩
      | true =>
        right; right
        exact ⟨⟨m.config.assign input, m.live⟩, by simp [hen, hwas], (status_some hm).symm,
          (failures_some hm).symm⟩

theorem saveConfig_inv (hw : Inv w) {input : ConfigPatch} {now : Time}
    (horder : InOrder w (.save input now)) :
    Inv ⟨saveConfig w.tables input now,
      w.history.observe w.tables (saveConfig w.tables input now) (.save input now)⟩ ∧
      Effect w.tables (saveConfig w.tables input now) := by
  obtain ⟨row, ht, hstatus, hcount⟩ | ⟨row, ht, hstatus, hcount, hturned⟩ | ⟨row, ht, hstatus, hcount⟩ :=
    saveConfig_cases w.tables input now
  · rw [ht]
    have hunknown : status { w.tables with monitor := some row, incidents := closeAll w.tables.incidents now }
        ≠ .down := by
      rw [status_some rfl, hstatus]
      decide
    exact hw.silent rfl rfl rfl (.closed now rfl hunknown) (fun hd => absurd hd hunknown)
      (Or.inl ((failures_some rfl).trans hcount)) (fun hd => absurd hd hunknown)
  · rw [ht]
    have hunknown : status { w.tables with monitor := some row } ≠ .down := by
      rw [status_some rfl, hstatus]
      decide
    -- it was not down: nothing is open
    have hbefore : status w.tables ≠ .down := by
      cases hm : w.tables.monitor with
      | none => simp [status, hm]
      | some m =>
        rw [status_some hm]
        exact horder m hm (hturned m hm).1 (hturned m hm).2
    exact hw.silent rfl rfl rfl (.same rfl (iff_of_false hunknown hbefore)) (fun hd => absurd hd hunknown)
      (Or.inl ((failures_some rfl).trans hcount)) (fun hd => absurd hd hunknown)
  · rw [ht]
    have hsame : status { w.tables with monitor := some row } = status w.tables := hstatus
    have hfail : failures { w.tables with monitor := some row } = failures w.tables := hcount
    exact hw.silent rfl rfl rfl (.same rfl (by rw [hsame])) (fun hd => hsame ▸ hd) (Or.inr hfail)
      (fun _ => hfail)

theorem noTarget_inv (hw : Inv w) (hm : w.tables.monitor = some m) (error : JsString) (now : Time) :
    Inv ⟨{ w.tables with monitor := some (noTarget m error now) },
      w.history.observe w.tables { w.tables with monitor := some (noTarget m error now) }
        (.noTarget error now)⟩ ∧
      Effect w.tables { w.tables with monitor := some (noTarget m error now) } := by
  have hsame : status { w.tables with monitor := some (noTarget m error now) } = status w.tables :=
    (status_some hm).symm
  have hfail : failures { w.tables with monitor := some (noTarget m error now) } = failures w.tables :=
    (failures_some hm).symm
  exact hw.silent rfl rfl rfl (.same rfl (by rw [hsame])) (fun hd => hsame ▸ hd) (Or.inr hfail)
    (fun _ => hfail)

theorem tickStopped_inv (hw : Inv w) (now : Time) :
    Inv ⟨tickStopped w.tables m now,
      w.history.observe w.tables (tickStopped w.tables m now) (.stopped now)⟩ ∧
      Effect w.tables (tickStopped w.tables m now) := by
  unfold tickStopped
  split
  · have hunknown : status { w.tables with
        monitor := some { m with live := m.live.reset },
        incidents := closeAll w.tables.incidents now } ≠ .down := fun hd => by (cases hd)
    exact hw.silent rfl rfl rfl (.closed now rfl hunknown) (fun hd => absurd hd hunknown)
      (Or.inl rfl) (fun hd => absurd hd hunknown)
  · exact hw.silent rfl rfl rfl (.same rfl Iff.rfl) id (Or.inr rfl) (fun _ => rfl)

theorem tickDeploying_inv (hw : Inv w) (hm : w.tables.monitor = some m) :
    Inv ⟨tickDeploying w.tables m, w.history.observe w.tables (tickDeploying w.tables m) .deploying⟩ ∧
      Effect w.tables (tickDeploying w.tables m) := by
  unfold tickDeploying
  split
  · rename_i hstreak
    have hsame : status { w.tables with
        monitor := some { m with live := { m.live with consecutiveFailures := 0 } } } = status w.tables :=
      (status_some hm).symm
    have hnd : status w.tables ≠ .down := by
      rw [status_some hm]
      exact hstreak.1
    exact hw.silent rfl rfl rfl (.same rfl (by rw [hsame])) (fun hd => absurd (hsame ▸ hd) hnd)
      (Or.inl rfl) (fun hd => absurd (hsame ▸ hd) hnd)
  · exact hw.silent rfl rfl rfl (.same rfl Iff.rfl) id (Or.inr rfl) (fun _ => rfl)

/-! ### Checks -/

/-- The rule, case by case: a healthy check, a failure that brings the monitor down, and any
other failure, which leaves the status. -/
theorem nextState_cases (prev : Live) (ok : Bool) (threshold : Nat) :
    (ok = true ∧ nextState prev ok threshold =
      ⟨.up, 0, if prev.status = .down then some .recovered else none⟩) ∨
    (ok = false ∧ prev.status ≠ .down ∧
      nextState prev ok threshold = ⟨.down, prev.consecutiveFailures + 1, some .down⟩) ∨
    (ok = false ∧ nextState prev ok threshold = ⟨prev.status, prev.consecutiveFailures + 1, none⟩) := by
  cases ok with
  | true => exact Or.inl ⟨rfl, rfl⟩
  | false =>
    right
    simp only [nextState, Bool.false_eq_true, if_false]
    by_cases hreached : threshold ≤ prev.consecutiveFailures + 1
    · by_cases hdown : prev.status = .down
      · right
        exact ⟨trivial, by simp [hreached, hdown]⟩
      · left
        exact ⟨trivial, hdown, by simp [hreached, hdown]⟩
    · right
      exact ⟨trivial, by simp [hreached]⟩

/-- The bookkeeping leaves the status and the counter. -/
theorem transition_live (checks : List Check) (incidents : List Incident) (live : Live)
    (event : Option Event) (error : Option JsString) (now : Time) :
    (transition checks incidents live event error now).2.1.status = live.status ∧
      (transition checks incidents live event error now).2.1.consecutiveFailures =
        live.consecutiveFailures := by
  unfold transition
  split
  · exact ⟨rfl, rfl⟩
  · exact ⟨rfl, rfl⟩
  · split <;> exact ⟨rfl, rfl⟩

section Check
variable {w : World} {m : Row} {r : Result} {now : Time}

theorem check_status (t : Tables) :
    status (check t m r now) = (nextState m.live r.ok m.config.failureThreshold).status :=
  (transition_live _ _ _ _ _ _).1

theorem check_failures (t : Tables) :
    failures (check t m r now) = (nextState m.live r.ok m.config.failureThreshold).consecutiveFailures :=
  (transition_live _ _ _ _ _ _).2

theorem times_check (hw : Inv w) (hlater : ∀ c ∈ w.tables.checks, c.time < now) :
    ((check w.tables m r now).checks.map Check.time).Pairwise (· < ·) := by
  have hchecks : (check w.tables m r now).checks.map Check.time =
      w.tables.checks.map Check.time ++ [now] := by simp [check]
  rw [hchecks, pairwise_append]
  refine ⟨hw.times, pairwise_singleton _ _, ?_⟩
  intro x hx y hy
  obtain ⟨c, hc, rfl⟩ := mem_map.mp hx
  exact mem_singleton.mp hy ▸ hlater c hc

theorem newest_check (hw : Inv w) :
    w.history.streak ++ [now] <:+ (check w.tables m r now).checks.map Check.time := by
  obtain ⟨pre, hpre⟩ := hw.newest
  exact ⟨pre, by simp [check, ← hpre]⟩

/-- A check without an event leaves the incidents and sends a reminder at most. -/
theorem observe_check_none (hevent : (nextState m.live r.ok m.config.failureThreshold).event = none)
    (hstays : status (check w.tables m r now) = .down → status w.tables = .down) :
    (check w.tables m r now).incidents = w.tables.incidents ∧
      w.history.observe w.tables (check w.tables m r now) (.check r now) =
        { w.history with streak := if r.ok then [] else w.history.streak ++ [now] } := by
  have hstart : ¬ (status w.tables ≠ .down ∧ status (check w.tables m r now) = .down) :=
    fun hs => hs.1 (hstays hs.2)
  have hsent : ∃ ms, (check w.tables m r now).sent = w.tables.sent ++ ms ∧
      ∀ h : History, ms.foldl History.receive h = h := by
    unfold check
    simp only [hevent, transition]
    split
    · exact ⟨_, rfl, fun _ => rfl⟩
    · exact ⟨[], rfl, fun _ => rfl⟩
  refine ⟨?_, ?_⟩
  · unfold check
    simp only [hevent, transition]
    split <;> rfl
  · obtain ⟨ms, hms, hsilent⟩ := hsent
    unfold History.observe
    rw [if_neg hstart, hms, drop_left, hsilent]
    rfl

/-- A check that brings the monitor down opens the incident of the streak. -/
theorem check_down_inv (hw : Inv w) (hm : w.tables.monitor = some m) (hfail : r.ok = false)
    (hbefore : m.live.status ≠ .down)
    (hnext : nextState m.live r.ok m.config.failureThreshold =
      ⟨.down, m.live.consecutiveFailures + 1, some .down⟩)
    (hlater : ∀ c ∈ w.tables.checks, c.time < now) :
    Inv ⟨check w.tables m r now, w.history.observe w.tables (check w.tables m r now) (.check r now)⟩ ∧
      Effect w.tables (check w.tables m r now) := by
  have hstatusW : status w.tables ≠ .down := by
    rw [status_some hm]
    exact hbefore
  have hstatus : status (check w.tables m r now) = .down := by rw [check_status, hnext]
  have hlen : (w.history.streak ++ [now]).length = m.live.consecutiveFailures + 1 := by
    rw [length_append, hw.counted, failures_some hm]
    rfl
  have htimes := times_check (m := m) (r := r) hw hlater
  have hfirst : (newestTimes (w.tables.checks ++ [⟨now, r.ok⟩]) (m.live.consecutiveFailures + 1)).getLast? =
      (w.history.streak ++ [now]).head? := by
    rw [← hlen]
    exact oldest_newest htimes (newest_check (m := m) (r := r) hw)
  obtain ⟨first, hhead⟩ : ∃ first, (w.history.streak ++ [now]).head? = some first := by
    cases w.history.streak with
    | nil => exact ⟨now, rfl⟩
    | cons x xs => exact ⟨x, rfl⟩
  let i : Incident := ⟨w.tables.incidents.length, first, none, r.error, m.live.consecutiveFailures + 1⟩
  have hincidents : (check w.tables m r now).incidents = w.tables.incidents ++ [i] := by
    simp [check, hnext, transition, Live.probed, hfirst, hhead, i]
  have hsent : (check w.tables m r now).sent = w.tables.sent ++
      [⟨.down, some first, m.live.consecutiveFailures + 1, r.error⟩] := by
    simp [check, hnext, transition, Live.probed, hfirst, hhead]
  have heffect : Effect w.tables (check w.tables m r now) :=
    .opened i hincidents rfl rfl hstatusW hstatus
  have hhistory : w.history.observe w.tables (check w.tables m r now) (.check r now) =
      { w.history with streak := w.history.streak ++ [now], outages := ⟨1, 0⟩ :: w.history.outages } := by
    simp [History.observe, hstatusW, hstatus, hsent, History.receive, History.alert, streakAfter, hfail]
  refine ⟨?_, heffect⟩
  rw [hhistory]
  exact {
    times := htimes
    counted := by
      rw [check_failures, hnext]
      exact hlen
    newest := newest_check hw
    ids := heffect.ids hw.ids
    isDown := by
      intro _
      refine ⟨i, ?_, hhead⟩
      have hopen := hw.notDown hstatusW
      unfold openIncidents at hopen ⊢
      rw [hincidents, filter_append, hopen]
      rfl
    notDown := fun hnd => absurd hstatus hnd
    stray := hw.stray
    alerted := by
      intro o ho
      rcases mem_cons.mp ho with rfl | ho
      · exact ⟨rfl, Nat.zero_le 1⟩
      · exact hw.alerted o ho
    current := fun _ => ⟨_, _, rfl, rfl⟩ }

/-- A healthy check of a monitor that is down closes the incident and sends the recovery. -/
theorem check_recovered_inv (hw : Inv w) (hm : w.tables.monitor = some m) (hok : r.ok = true)
    (hbefore : m.live.status = .down)
    (hnext : nextState m.live r.ok m.config.failureThreshold = ⟨.up, 0, some .recovered⟩)
    (hlater : ∀ c ∈ w.tables.checks, c.time < now) :
    Inv ⟨check w.tables m r now, w.history.observe w.tables (check w.tables m r now) (.check r now)⟩ ∧
      Effect w.tables (check w.tables m r now) := by
  have hstatusW : status w.tables = .down := (status_some hm).trans hbefore
  obtain ⟨i, hi, -⟩ := hw.isDown hstatusW
  obtain ⟨o, os, houtages, hrec⟩ := hw.current hstatusW
  have hopen : w.tables.incidents.filter Incident.isOpen = [i] := hi
  have hnodup : (w.tables.incidents.map Incident.id).Nodup := hw.ids ▸ nodup_range
  have hnd : status (check w.tables m r now) ≠ .down := by
    rw [check_status, hnext]
    decide
  have hincidents : (check w.tables m r now).incidents = closeAll w.tables.incidents now := by
    simp [check, hnext, transition, latestOpen_eq hopen, closeById_eq hnodup hopen]
  have hsent : (check w.tables m r now).sent = w.tables.sent ++
      [⟨.recovered, some i.startedAt, 0, none⟩] := by
    simp [check, hnext, transition, Live.probed, latestOpen_eq hopen]
  have heffect : Effect w.tables (check w.tables m r now) := .closed now hincidents hnd
  have hhistory : w.history.observe w.tables (check w.tables m r now) (.check r now) =
      { w.history with streak := [], outages := { o with recoveries := o.recoveries + 1 } :: os } := by
    simp [History.observe, hnd, hsent, History.receive, History.alert, houtages, streakAfter, hok]
  refine ⟨?_, heffect⟩
  rw [hhistory]
  exact {
    times := times_check hw hlater
    counted := by
      rw [check_failures, hnext]
      rfl
    newest := nil_suffix
    ids := heffect.ids hw.ids
    isDown := fun hd => absurd hd hnd
    notDown := heffect.notDown hw.notDown
    stray := hw.stray
    alerted := by
      intro o' ho'
      have hold := hw.alerted
      rw [houtages] at hold
      rcases mem_cons.mp ho' with rfl | ho'
      · exact ⟨(hold o mem_cons_self).1, by simp [hrec]⟩
      · exact hold o' (mem_cons_of_mem _ ho')
    current := fun hd => absurd hd hnd }

/-- A check that changes nothing about outages: a healthy one, or one more failure. -/
theorem check_none_inv (hw : Inv w)
    (hevent : (nextState m.live r.ok m.config.failureThreshold).event = none)
    (hdown : status (check w.tables m r now) = .down ↔ status w.tables = .down)
    (hcount : failures (check w.tables m r now) =
      (if r.ok then [] else w.history.streak ++ [now]).length)
    (hfail : status w.tables = .down → r.ok = false)
    (hlater : ∀ c ∈ w.tables.checks, c.time < now) :
    Inv ⟨check w.tables m r now, w.history.observe w.tables (check w.tables m r now) (.check r now)⟩ ∧
      Effect w.tables (check w.tables m r now) := by
  obtain ⟨hincidents, hhistory⟩ := observe_check_none (w := w) hevent hdown.mp
  have heffect : Effect w.tables (check w.tables m r now) := .same hincidents hdown
  refine ⟨?_, heffect⟩
  rw [hhistory]
  exact {
    times := times_check hw hlater
    counted := hcount.symm
    newest := by
      show (if r.ok then [] else w.history.streak ++ [now]) <:+ _
      split
      · exact nil_suffix
      · exact newest_check hw
    ids := heffect.ids hw.ids
    isDown := by
      intro hd
      obtain ⟨i, hi, hhead⟩ := hw.isDown (hdown.mp hd)
      refine ⟨i, ?_, ?_⟩
      · unfold openIncidents at hi ⊢
        rw [hincidents]
        exact hi
      · show (if r.ok then [] else w.history.streak ++ [now]).head? = some i.startedAt
        rw [hfail (hdown.mp hd), if_neg Bool.false_ne_true, List.head?_append, hhead]
        rfl
    notDown := heffect.notDown hw.notDown
    stray := hw.stray
    alerted := hw.alerted
    current := fun hd => hw.current (hdown.mp hd) }

theorem check_inv (hw : Inv w) (hm : w.tables.monitor = some m)
    (hlater : ∀ c ∈ w.tables.checks, c.time < now) :
    Inv ⟨check w.tables m r now, w.history.observe w.tables (check w.tables m r now) (.check r now)⟩ ∧
      Effect w.tables (check w.tables m r now) := by
  have hstatusW := status_some hm
  have hcountW : w.history.streak.length = m.live.consecutiveFailures :=
      hw.counted.trans (failures_some hm)
  obtain ⟨hok, hnext⟩ | ⟨hfail, hbefore, hnext⟩ | ⟨hfail, hnext⟩ :=
    nextState_cases m.live r.ok m.config.failureThreshold
  · by_cases hbefore : m.live.status = .down
    · rw [if_pos hbefore] at hnext
      exact check_recovered_inv hw hm hok hbefore hnext hlater
    · rw [if_neg hbefore] at hnext
      have hstatus : status (check w.tables m r now) = .up := by rw [check_status, hnext]
      refine check_none_inv hw (by rw [hnext]) ?_ ?_ ?_ hlater
      · rw [hstatus, hstatusW]
        exact iff_of_false (by decide) hbefore
      · rw [check_failures, hnext, if_pos hok]
        rfl
      · intro hd
        exact absurd (hstatusW.symm.trans hd) hbefore
  · exact check_down_inv hw hm hfail hbefore hnext hlater
  · have hstatus : status (check w.tables m r now) = status w.tables := by
      rw [check_status, hnext, hstatusW]
    refine check_none_inv hw (by rw [hnext]) (by rw [hstatus]) ?_ (fun _ => hfail) hlater
    rw [check_failures, hnext, hfail, if_neg Bool.false_ne_true, length_append, hcountW]
    rfl

end Check

/-! ### Runs -/

/-- **One step.** -/
theorem step_inv {w' : World} (hw : Inv w) (horder : InOrder w a)
    (hstep : step w a = some w') : Inv w' ∧ Effect w.tables w'.tables := by
  obtain ⟨t, ht, rfl⟩ := map_eq_some_iff.mp hstep
  cases a with
  | save input now =>
    cases ht
    exact saveConfig_inv hw horder
  | check r now =>
    obtain ⟨m, hm, rfl⟩ := map_eq_some_iff.mp ht
    exact check_inv hw hm horder
  | noTarget error now =>
    obtain ⟨m, hm, rfl⟩ := map_eq_some_iff.mp ht
    exact noTarget_inv hw hm error now
  | stopped now =>
    obtain ⟨m, -, ht⟩ := bind_eq_some_iff.mp ht
    split at ht
    · cases ht
      exact tickStopped_inv hw now
    · cases ht
  | deploying =>
    obtain ⟨m, hm, ht⟩ := bind_eq_some_iff.mp ht
    split at ht
    · cases ht
      exact tickDeploying_inv hw hm
    · cases ht

/-- **A run in order accounts for every outage**: down with exactly one open incident, dated
from the first failed check of the streak, one down alert and at most one recovery each; and
every further step closes an incident exactly when the monitor stops being down. -/
theorem outages_accounted (as : List Action) (w : World)
    (hmeets : Runs.Meets step InOrder initial as) (hrun : Runs.exec step initial as = some w) :
    Accounted w ∧ ∀ a w', InOrder w a → step w a = some w' → ClosesWithOutage w.tables w'.tables := by
  have hw : Inv w :=
    Runs.exec_invariant (fun _ _ _ h horder hstep => (step_inv h horder hstep).1) as initial w
      initial_inv hmeets hrun
  refine ⟨hw.accounted, ?_⟩
  intro a w' horder hstep
  refine (step_inv hw horder hstep).2.closesWithOutage hw.ids ?_ hw.notDown
  intro hd
  obtain ⟨i, hi, -⟩ := hw.isDown hd
  exact ⟨i, hi⟩

instance (w : World) : ∀ a : Action, Decidable (InOrder w a)
  | .check _ now => inferInstanceAs (Decidable (∀ c ∈ w.tables.checks, c.time < now))
  | .save input _ => inferInstanceAs (Decidable (∀ m, w.tables.monitor = some m → m.config.enabled = false →
      (m.config.assign input).enabled = true → m.live.status ≠ .down))
  | .noTarget _ _ | .stopped _ | .deploying => isTrue trivial

/-- A request that only turns the monitor on or off. -/
def switch (enabled : Bool) : ConfigPatch := ⟨some enabled, none, none, none, none, none, none⟩

def healthy : Result := ⟨true, some 200, 12, none, js "https://a.test/"⟩

def failing : Result := ⟨false, some 502, 30, some (js "HTTP 502"), js "https://a.test/"⟩

/-- Two outages: the first recovers, the second ends when the monitor is turned off. -/
def sampleRun : List Action :=
  [.save (switch true) 0, .check healthy 1, .check failing 2, .deploying, .check failing 3,
    .check failing 4, .check failing 5, .check healthy 6, .check failing 7, .check failing 8,
    .save (switch false) 9]

theorem outages_accounted_sample :
    ∃ w, Runs.exec step initial sampleRun = some w ∧ Accounted w ∧
      ∀ a w', InOrder w a → step w a = some w' → ClosesWithOutage w.tables w'.tables := by
  obtain ⟨w, hw⟩ := Option.isSome_iff_exists.mp
    (by decide : (Runs.exec step initial sampleRun).isSome = true)
  exact ⟨w, hw, outages_accounted sampleRun w (by decide) hw⟩

/-- "Check now" on a monitor that is off, and turning it on: the status is unknown and the
incident stays open. -/
def checkedWhileOff : List Action :=
  [.save (switch false) 0, .check failing 1, .check failing 2, .save (switch true) 3]

theorem turning_on_leaves_incident :
    ¬ ∀ (as : List Action) (w : World), Runs.exec step initial as = some w → Accounted w := by
  intro h
  obtain ⟨w, hw⟩ := Option.isSome_iff_exists.mp
    (by decide : (Runs.exec step initial checkedWhileOff).isSome = true)
  have hshown : (Runs.exec step initial checkedWhileOff).map
      (fun w => (status w.tables, (openIncidents w.tables).length)) = some (.unknown, 1) := by decide
  rw [hw, Option.map_some, Option.some.injEq, Prod.mk.injEq] at hshown
  obtain ⟨i, hi⟩ := List.length_eq_one_iff.mp hshown.2
  have hdown := (h checkedWhileOff w hw).down_iff.mpr ⟨i, hi⟩
  rw [hshown.1] at hdown
  cases hdown

end Aoox.Monitor
