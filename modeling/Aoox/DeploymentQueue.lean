import Aoox.Runs
import Aoox.JsString
import Mathlib.Data.List.Count

/-! # Queueing deployments

Three entry points create deployment rows: `DeployApplicationService.queue` (the
API, webhooks and the tag follower call it), `RollbackApplicationService.execute`
and `DeploymentRunnerService.queueRuntimeConfig`.  Each counts the application's
deployments in flight, refuses with a conflict when there is one, and otherwise
saves a new row in status `queued`.  The count and the insert are separate
database calls with an await in between; no lock, transaction or unique index
ties them together.

The state is the deployment table and the position of every request in its own
code; an action is one database call of one request, or one status written by a
deployment's runner.
-/
open Option Function
namespace Aoox

inductive DeploymentKind where
  | build | rollback | autoUpdate | config

inductive DeploymentStatus where
  | queued | building | pushing | starting | success | failed
  deriving DecidableEq

inductive DeploymentTrigger where
  | manual | webhook | autoUpdate

namespace DeploymentStatus

/-- `In(['queued', 'building', 'pushing', 'starting'])`. -/
def inFlight : DeploymentStatus → Bool
  | queued | building | pushing | starting => true
  | success | failed => false

/-- The statuses a runner may write next.  A build or pull goes through
`building` and (for a build) `pushing` to `starting`; a rollback or config run
starts at `starting`; `replaceContainer` may report `starting` again; every path
ends in `success` or `failed`, and nothing is written after that. -/
def next : DeploymentStatus → List DeploymentStatus
  | queued => [building, starting, failed]
  | building => [pushing, starting, failed]
  | pushing => [starting, failed]
  | starting => [starting, success, failed]
  | success | failed => []

theorem inFlight_of_next {s t : DeploymentStatus} (h : t ∈ s.next) : s.inFlight = true := by
  cases s <;> simp_all [next, inFlight]

end DeploymentStatus

/-- A row of `deployments`, with the columns the entry points write. -/
structure Deployment where
  (id applicationId : Nat)
  status : DeploymentStatus
  kind : DeploymentKind
  rolledBackFromId : Option Nat
  imageRef : Option JsString
  logs : JsString
  trigger : DeploymentTrigger
  (commitSha commitMessage triggeredBy : Option JsString)

/-- `DeploymentTriggerInfo`, less the tag to restore, which only the runner
reads. -/
structure DeploymentTriggerInfo where
  trigger : DeploymentTrigger
  (commitSha commitMessage triggeredBy : Option JsString)

namespace DeploymentQueue

/-- A call of one of the entry points. -/
inductive Request where
  | queue (app : Nat) (kind : DeploymentKind) (info : DeploymentTriggerInfo)
  | rollback (app target : Nat) (actorEmail : JsString)
  | queueRuntimeConfig (app : Nat) (currentImage : Option JsString)
      (actorEmail : Option JsString)

/-- Where a request stands.  `draft` is the row it is about to save (its id is
given at the insert); `seen` is how many rows the application had when the
request counted, and is read by no step. -/
inductive Phase where
  | idle
  | checking (draft : Deployment)
  | ready (draft : Deployment) (seen : Nat)
  | queued (id : Nat)
  /-- `ConflictException('A deployment is already in progress')`. -/
  | conflict
  /-- `NotFoundException` or `BadRequestException` of a rollback target. -/
  | rejected
  /-- `queueRuntimeConfig` of an application that never ran returns `null`. -/
  | nothing

structure State where
  rows : List Deployment
  phase : Nat → Phase

/-- Request `p` has moved on. -/
def State.goto (s : State) (p : Nat) (ph : Phase) : State :=
  { s with phase := Function.update s.phase p ph }

inductive Action where
  /-- Request `p` is made and runs up to its count. -/
  | request (p : Nat) (r : Request)
  /-- Request `p` counts the deployments in flight. -/
  | count (p : Nat)
  /-- Request `p` saves its row. -/
  | insert (p : Nat)
  | runner (id : Nat) (status : DeploymentStatus)

/-- The deployments of `app` that are in flight. -/
def inFlight (rows : List Deployment) (app : Nat) : Nat :=
  rows.countP fun d => d.applicationId = app && d.status.inFlight

/-- All deployments of `app`. -/
def rowsOf (rows : List Deployment) (app : Nat) : Nat :=
  rows.countP fun d => d.applicationId = app

/-- What a request does before it counts. -/
def begin (rows : List Deployment) : Request → Phase
  | .queue app kind info => .checking
      { id := 0, applicationId := app, status := .queued, kind := kind, rolledBackFromId := none,
        imageRef := none, logs := [], trigger := info.trigger, commitSha := info.commitSha,
        commitMessage := info.commitMessage, triggeredBy := info.triggeredBy }
  | .rollback app target actorEmail =>
    match rows.find? fun d => d.id = target && d.applicationId = app with
    | none => .rejected
    | some t =>
      match t.status, t.imageRef with
      | .success, some ref => .checking
          { id := 0, applicationId := app, status := .queued, kind := .rollback,
            rolledBackFromId := some target, imageRef := some ref, logs := [],
            trigger := .manual, commitSha := none, commitMessage := none,
            triggeredBy := some actorEmail }
      | _, _ => .rejected
  | .queueRuntimeConfig app currentImage actorEmail =>
    match currentImage with
    | none => .nothing
    | some ref => .checking
        { id := 0, applicationId := app, status := .queued, kind := .config,
          rolledBackFromId := none, imageRef := some ref, logs := [], trigger := .manual,
          commitSha := none, commitMessage := none, triggeredBy := actorEmail }

/-- The runner's write: the row of its deployment gets the new status, if that
is one it can write next. -/
def advance (id : Nat) (status : DeploymentStatus) (d : Deployment) : Deployment :=
  if d.id = id ∧ status ∈ d.status.next then { d with status := status } else d

def step (s : State) : Action → Option State
  | .request p r =>
    match s.phase p with
    | .idle => some (s.goto p (begin s.rows r))
    | _ => none
  | .count p =>
    match s.phase p with
    | .checking draft =>
      if inFlight s.rows draft.applicationId > 0 then some (s.goto p .conflict)
      else some (s.goto p (.ready draft (rowsOf s.rows draft.applicationId)))
    | _ => none
  | .insert p =>
    match s.phase p with
    | .ready draft _ =>
      let d : Deployment := { draft with id := s.rows.length }
      some ({ s with rows := s.rows ++ [d] }.goto p (.queued d.id))
    | _ => none
  | .runner id status => some { s with rows := s.rows.map (advance id status) }

/-- No request has been made yet; the table may hold earlier deployments. -/
def initial (rows : List Deployment) : State := ⟨rows, fun _ => .idle⟩

/-- A request whose insert follows its count with no insert of the same
application in between. -/
def Fresh (s : State) : Action → Prop
  | .insert p => ∀ draft seen, s.phase p = .ready draft seen →
      rowsOf s.rows draft.applicationId = seen
  | _ => True

/-- What holds of a request's position: its draft is a queued row, and once it is
ready nothing of its application is in flight unless a row was added since its
count. -/
def Phase.Sound (rows : List Deployment) : Phase → Prop
  | .checking draft => draft.status = .queued
  | .ready draft seen => draft.status = .queued ∧ seen ≤ rowsOf rows draft.applicationId ∧
      (rowsOf rows draft.applicationId = seen → inFlight rows draft.applicationId = 0)
  | _ => True

/-- At most one deployment per application is in flight, and every request's
position is sound. -/
structure Inv (s : State) : Prop where
  atMostOne : ∀ app, inFlight s.rows app ≤ 1
  sound : ∀ p, (s.phase p).Sound s.rows

variable {s : State} {ph : Phase}

theorem Inv.goto (hs : Inv s) (p : Nat) (hph : ph.Sound s.rows) : Inv (s.goto p ph) := by
  refine ⟨hs.atMostOne, fun q => ?_⟩
  by_cases hq : q = p
  · subst hq
    simpa [State.goto] using hph
  · simpa [State.goto, update_of_ne hq] using hs.sound q

theorem begin_sound (rows : List Deployment) (r : Request) : (begin rows r).Sound rows := by
  unfold begin
  split
  · exact rfl
  · split
    · trivial
    · split
      · exact rfl
      · trivial
  · split
    · trivial
    · exact rfl

@[simp] theorem advance_applicationId (id : Nat) (status : DeploymentStatus) (d : Deployment) :
    (advance id status d).applicationId = d.applicationId := by
  unfold advance
  split <;> rfl

variable {d : Deployment}

theorem advance_inFlight {id : Nat} {status : DeploymentStatus}
    (h : (advance id status d).status.inFlight = true) : d.status.inFlight = true := by
  unfold advance at h
  split at h
  · rename_i hc
    exact DeploymentStatus.inFlight_of_next hc.2
  · exact h

theorem rowsOf_advance (rows : List Deployment) (id : Nat) (status : DeploymentStatus)
    (app : Nat) : rowsOf (rows.map (advance id status)) app = rowsOf rows app := by
  simp [rowsOf, List.countP_map, comp_def]

/-- A runner takes a deployment out of flight or leaves it where it was. -/
theorem inFlight_advance_le (rows : List Deployment) (id : Nat) (status : DeploymentStatus)
    (app : Nat) : inFlight (rows.map (advance id status)) app ≤ inFlight rows app := by
  unfold inFlight
  rw [List.countP_map]
  refine List.countP_mono_left (fun d _ h => ?_)
  simp only [comp_apply, advance_applicationId, Bool.and_eq_true, decide_eq_true_eq] at h ⊢
  exact ⟨h.1, advance_inFlight h.2⟩

theorem inFlight_insert (rows : List Deployment) (hd : d.status = .queued) (app : Nat) :
    inFlight (rows ++ [d]) app = inFlight rows app + if d.applicationId = app then 1 else 0 := by
  by_cases h : d.applicationId = app <;> simp [inFlight, hd, h, DeploymentStatus.inFlight]

theorem rowsOf_insert (rows : List Deployment) (d : Deployment) (app : Nat) :
    rowsOf (rows ++ [d]) app = rowsOf rows app + if d.applicationId = app then 1 else 0 := by
  by_cases h : d.applicationId = app <;> simp [rowsOf, h]

variable {rows : List Deployment}

/-- A row saved by another request keeps a position sound: a row of the same
application makes it stale, one of another application changes neither count. -/
theorem Phase.Sound.insert (h : ph.Sound rows)
    (hd : d.status = .queued) : ph.Sound (rows ++ [d]) := by
  cases ph with
  | ready draft seen =>
    obtain ⟨h1, h2, h3⟩ := h
    refine ⟨h1, ?_, ?_⟩
    · rw [rowsOf_insert]
      omega
    · rw [rowsOf_insert, inFlight_insert rows hd]
      split
      · omega
      · exact fun he => h3 (by omega)
  | checking draft => exact h
  | _ => trivial

theorem Phase.Sound.advance (h : ph.Sound rows) (id : Nat) (status : DeploymentStatus) :
    ph.Sound (rows.map (DeploymentQueue.advance id status)) := by
  cases ph with
  | ready draft seen =>
    obtain ⟨h1, h2, h3⟩ := h
    refine ⟨h1, ?_, fun he => ?_⟩
    · rwa [rowsOf_advance]
    · rw [rowsOf_advance] at he
      have hle := inFlight_advance_le rows id status draft.applicationId
      rw [h3 he] at hle
      exact Nat.le_zero.mp hle
  | checking draft => exact h
  | _ => trivial

/-- **Every fresh step keeps the invariant.** -/
theorem step_inv {s' : State} {a : Action} (hs : Inv s) (ha : Fresh s a)
    (h : step s a = some s') : Inv s' := by
  cases a with
  | request p r =>
    simp only [step] at h
    split at h
    · obtain rfl := some.inj h
      exact hs.goto p (begin_sound s.rows r)
    · cases h
  | count p =>
    simp only [step] at h
    split at h
    · rename_i draft hp
      have hdraft : draft.status = .queued := by simpa [hp, Phase.Sound] using hs.sound p
      split at h
      · obtain rfl := some.inj h
        exact hs.goto p trivial
      · rename_i hnone
        obtain rfl := some.inj h
        exact hs.goto p ⟨hdraft, le_rfl, fun _ => by omega⟩
    · cases h
  | insert p =>
    simp only [step] at h
    split at h
    · rename_i draft seen hp
      obtain rfl := some.inj h
      obtain ⟨hstatus, -, hnone⟩ : (Phase.ready draft seen).Sound s.rows := hp ▸ hs.sound p
      have hzero : inFlight s.rows draft.applicationId = 0 := hnone (ha draft seen hp)
      have hrow : ({ draft with id := s.rows.length } : Deployment).status = .queued := hstatus
      refine Inv.goto ⟨fun app => ?_, fun q => (hs.sound q).insert hrow⟩ p trivial
      have hold := hs.atMostOne app
      rw [inFlight_insert s.rows hrow]
      split
      · rename_i happ
        rw [← show draft.applicationId = app from happ, hzero]
      · omega
    · cases h
  | runner id status =>
    obtain rfl := some.inj h
    exact ⟨fun app => (inFlight_advance_le s.rows id status app).trans (hs.atMostOne app),
      fun q => (hs.sound q).advance id status⟩

/-- **One deployment at a time, as long as no insert comes between a request's
count and its own insert.**  Any number of requests of any kind, for any number
of applications, and any runner progress. -/
theorem inFlight_le_one (rows : List Deployment) (hrows : ∀ app, inFlight rows app ≤ 1)
    (acts : List Action) (hfresh : Runs.Meets step Fresh (initial rows) acts) (s : State)
    (hs : Runs.exec step (initial rows) acts = some s) (app : Nat) : inFlight s.rows app ≤ 1 :=
  (Runs.exec_invariant (fun _ _ _ hinv hc hstep => step_inv hinv hc hstep) acts (initial rows) s
    ⟨hrows, fun _ => trivial⟩ hfresh hs).atMostOne app

def manual : Request := .queue 1 .build ⟨.manual, none, none, none⟩

/-- One request after the other: the second is refused while the first builds. -/
def oneAfterOther : List Action :=
  [.request 0 manual, .count 0, .insert 0, .request 1 manual, .count 1, .runner 0 .building]

theorem inFlight_le_one_oneAfterOther :
    ∃ s, Runs.exec step (initial []) oneAfterOther = some s ∧ inFlight s.rows 1 ≤ 1 :=
  ⟨_, rfl, inFlight_le_one [] (by simp [inFlight]) oneAfterOther
    (by simp [oneAfterOther, Runs.Meets, Fresh, step, initial, begin, manual, rowsOf, inFlight,
      State.goto]) _ rfl 1⟩

/-- Both requests count before either of them inserts: two deployments of the
application are queued. -/
theorem two_in_flight :
    ∃ s, Runs.exec step (initial []) [.request 0 manual, .request 1 manual, .count 0, .count 1,
      .insert 0, .insert 1] = some s ∧ ¬ inFlight s.rows 1 ≤ 1 :=
  ⟨_, rfl, by decide⟩

end DeploymentQueue
end Aoox
