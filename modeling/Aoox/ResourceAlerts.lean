import Aoox.JsString

/-! # Resource alert rules

A rule on one metric of an application or a database holds what the user set and the live
state, which the evaluation once a minute brings up to date.  Saving a change puts the
state back to the one of a new rule (`saveRule_reset`).
-/
namespace Aoox.Alerts

open JsString

abbrev Time := Int

inductive Metric where
  | cpu | memory
  deriving DecidableEq, Repr

/-- `pending` is over the threshold, but not yet twice in a row. -/
inductive AlertStatus where
  | ok | pending | alerting
  deriving DecidableEq, Repr

structure RuleConfig where
  enabled : Bool
  (thresholdPercent durationMinutes : Nat)
  deriving DecidableEq, Repr

def defaultRule : RuleConfig := ⟨false, 90, 5⟩

structure RuleInput where
  enabled : Option Bool
  (thresholdPercent durationMinutes : Option Nat)

/-! ## The state machine of one rule -/

structure AlertState where
  status : AlertStatus
  (statusSince lastAlertAt : Option Time)
  deriving DecidableEq

inductive AlertAction where
  | alert | reminder | recovered
  deriving DecidableEq, Repr

/-- Reminder while a breach persists. -/
def reminderMs : Time := 6 * 3600000

def nextAlertState (prev : AlertState) (breaching : Bool) (now reminder : Time) :
    AlertState × Option AlertAction :=
  if breaching = false then
    match prev.status with
    | .alerting => (⟨.ok, some now, none⟩, some .recovered)
    | .pending => (⟨.ok, some now, none⟩, none)
    | .ok => (prev, none)
  else
    match prev.status with
    | .ok => (⟨.pending, some now, none⟩, none)
    | .pending => (⟨.alerting, some (prev.statusSince.getD now), some now⟩, some .alert)
    | .alerting =>
      if prev.lastAlertAt.getD 0 + reminder ≤ now then
        ({ prev with lastAlertAt := some now }, some .reminder)
      else (prev, none)

/-! ## Rows -/

-- the values of a metric
variable {V : Type}

/-- The live state that a row carries. -/
structure RuleState (V : Type) where
  alert : AlertState
  lastValue : Option V
  lastEvaluatedAt : Option Time

def resetState : RuleState V := ⟨⟨.ok, none, none⟩, none, none⟩

def RuleState.atRest (s : RuleState V) : Bool :=
  s.alert = ⟨.ok, none, none⟩ && s.lastValue.isNone && s.lastEvaluatedAt.isNone

theorem resetState_atRest : (resetState : RuleState V).atRest = true := rfl

structure Rule (V : Type) where
  config : RuleConfig
  state : RuleState V

/-- `input.x ?? existing?.x ?? DEFAULT_RULE.x` for each field. -/
def nextConfig (existing : Option (Rule V)) (input : RuleInput) : RuleConfig :=
  let c := (existing.map Rule.config).getD defaultRule
  ⟨input.enabled.getD c.enabled, input.thresholdPercent.getD c.thresholdPercent,
    input.durationMinutes.getD c.durationMinutes⟩

/-- The row that is saved, and whether its state was reset. -/
def saveRule (metric : Metric) (existing : Option (Rule V)) (input : RuleInput) :
    Except JsString (Rule V × Bool) :=
  if metric = .memory ∧ 100 < input.thresholdPercent.getD 0 then
    .error (js "The memory threshold cannot be above 100 percent")
  else
    let next := nextConfig existing input
    match existing with
    | some r =>
      if r.config ≠ next then .ok (⟨next, resetState⟩, true) else .ok (⟨next, r.state⟩, false)
    | none => .ok (⟨next, resetState⟩, false)

/-- A rule is saved at rest when the save says so, and when it is new. -/
theorem saveRule_reset {metric : Metric} {existing : Option (Rule V)} {input : RuleInput} {r : Rule V}
    {reset : Bool} (h : saveRule metric existing input = .ok (r, reset))
    (hreset : reset = true ∨ existing = none) : r.state.atRest = true := by
  unfold saveRule at h
  split at h
  · cases h
  · cases existing with
    | none =>
      cases h
      exact resetState_atRest
    | some old =>
      simp only at h
      split at h
      · cases h
        exact resetState_atRest
      · cases h
        rcases hreset with hreset | hreset <;> cases hreset

/-! ## Evaluation -/

/-- What the evaluation of a rule finds: its owner stopped, its owner being deployed
(applications only), or what the minutes of the window say. -/
inductive Finding (V : Type) where
  | stopped
  | deploying
  | evaluated (breaching : Bool) (latestValue : Option V) (now : Time)

/-- The row an evaluation saves.  Only enabled rules are loaded; an alert in progress stays
as it is through a deployment. -/
def evaluateRule (r : Rule V) : Finding V → Option (Rule V)
  | .stopped =>
    if r.config.enabled = true ∧ r.state.alert.status ≠ .ok then some { r with state := resetState } else none
  | .deploying =>
    if r.config.enabled = true ∧ r.state.alert.status = .pending then
      some { r with state := { r.state with
        alert := { r.state.alert with status := .ok, statusSince := none } } }
    else none
  | .evaluated breaching latestValue now =>
    if r.config.enabled then
      some { r with state :=
        ⟨(nextAlertState r.state.alert breaching now reminderMs).1, latestValue, some now⟩ }
    else none

theorem evaluateRule_config {r r' : Rule V} {f : Finding V} (h : evaluateRule r f = some r') :
    r'.config = r.config := by
  unfold evaluateRule at h
  split at h <;> split at h
  all_goals cases h
  all_goals rfl

end Aoox.Alerts
