import Aoox.HttpMonitor
import Aoox.ResourceAlerts
import Aoox.StaleSaves

/-! # Saving what an evaluation holds a copy of

An HTTP check reads its monitor before the probe, and the evaluation of the alert rules
reads all rules before its queries; both then save the row whole, configuration included.
A user who saves in between is overtaken by the older copy: the configuration goes back to
the old one, and a state that the save had reset is the old one again
(`check_reverts_save`).  As long as no overtaken copy is saved, nothing is lost
(`saves_survive`).
-/
namespace Aoox.EvaluatedRows

open StaleSaves JsString

/-! ## Monitors -/

/-- What a check, or the tick, finds.  A probe is recorded beside the stored checks and
incidents. -/
inductive Found where
  | probed (checks : List Monitor.Check) (incidents : List Monitor.Incident) (r : Monitor.Result)
      (now : Monitor.Time)
  | noTarget (error : JsString) (now : Monitor.Time)
  | stopped (now : Monitor.Time)
  | deploying

/-- "Not checked". -/
def monitorAtRest (m : Monitor.Row) : Bool :=
  m.live.status = .unknown && m.live.consecutiveFailures = 0 && m.live.statusSince.isNone

/-- The row that is saved, and whether its state was reset: the monitor is turned off, or
on. -/
def saveMonitor (existing : Option Monitor.Row) (input : Monitor.ConfigPatch) : Monitor.Row × Bool :=
  let row := existing.getD ⟨Monitor.defaultConfig, Monitor.newLive⟩
  let enabled := (row.config.assign input).enabled
  ((Monitor.saveRow existing input).1,
    (!enabled && (row.config.enabled || existing.isSome)) || (enabled && !row.config.enabled))

/-- The row a check or the tick saves.  The tick leaves monitors that are off alone, and
saves only what it changes: on tables without the row, what stands there afterwards. -/
def evaluateMonitor (m : Monitor.Row) : Found → Option Monitor.Row
  | .probed checks incidents r now => (Monitor.check ⟨none, checks, incidents, []⟩ m r now).monitor
  | .noTarget error now => some (Monitor.noTarget m error now)
  | .stopped now =>
    if m.config.enabled then (Monitor.tickStopped ⟨none, [], [], []⟩ m now).monitor else none
  | .deploying => if m.config.enabled then (Monitor.tickDeploying ⟨none, [], [], []⟩ m).monitor else none

theorem saveMonitor_atRest {existing : Option Monitor.Row} {input : Monitor.ConfigPatch}
    (h : (saveMonitor existing input).2 = true) :
    monitorAtRest (saveMonitor existing input).1 = true := by
  have hreset : ∀ (c : Monitor.Config) (l : Monitor.Live), monitorAtRest ⟨c, l.reset⟩ = true :=
    fun _ _ => rfl
  unfold saveMonitor at h ⊢
  unfold Monitor.saveRow
  simp only at h ⊢
  split
  · exact hreset _ _
  · rename_i hoff
    split
    · rfl
    · rename_i hon
      simp only [Bool.or_eq_true, Bool.and_eq_true, Bool.not_eq_true'] at h
      exact h.elim (fun h => absurd h hoff) (fun h => absurd h hon)

theorem evaluateMonitor_config {m m' : Monitor.Row} {f : Found} (h : evaluateMonitor m f = some m') :
    m'.config = m.config := by
  cases f with
  | probed checks incidents r now =>
    obtain rfl := Option.some.inj h
    rfl
  | noTarget error now =>
    obtain rfl := Option.some.inj h
    rfl
  | stopped now =>
    simp only [evaluateMonitor, Monitor.tickStopped] at h
    split at h
    · split at h <;> cases h
      rfl
    · cases h
  | deploying =>
    simp only [evaluateMonitor, Monitor.tickDeploying] at h
    split at h
    · split at h <;> cases h
      rfl
    · cases h

def monitors : Design Monitor.Row Monitor.Config Monitor.ConfigPatch Found where
  config := Monitor.Row.config
  atRest := monitorAtRest
  save existing input := some (saveMonitor existing input)
  evaluate := evaluateMonitor
  save_atRest := by
    intro existing input r h
    have hsaved : saveMonitor existing input = (r, true) := Option.some.inj h
    have hrest := @saveMonitor_atRest existing input (by rw [hsaved])
    rwa [hsaved] at hrest
  evaluate_config _ _ _ h := evaluateMonitor_config h

/-! ## Alert rules -/

variable (V : Type)

def rules (metric : Alerts.Metric) :
    Design (Alerts.Rule V) Alerts.RuleConfig Alerts.RuleInput (Alerts.Finding V) where
  config := Alerts.Rule.config
  atRest r := r.state.atRest
  save existing input := (Alerts.saveRule metric existing input).toOption
  evaluate := Alerts.evaluateRule
  save_atRest := by
    intro existing input r h
    cases hsave : Alerts.saveRule metric existing input with
    | error e =>
      rw [hsave] at h
      cases h
    | ok out =>
      rw [hsave] at h
      obtain rfl := Option.some.inj h
      exact Alerts.saveRule_reset hsave (Or.inl rfl)
  evaluate_config _ _ _ h := Alerts.evaluateRule_config h

/-! ## Runs -/

/-- **What a user saved survives the evaluations**, of monitors and of rules on either
metric, in every run in which no overtaken evaluation saves. -/
theorem saves_survive :
    (∀ (row : Option Monitor.Row) (as : List (Action Monitor.ConfigPatch Found)) (s),
      Runs.Meets monitors.step monitors.InTime (Design.initial row) as →
        Runs.exec monitors.step (Design.initial row) as = some s → monitors.Kept s) ∧
    ∀ (metric : Alerts.Metric) (row : Option (Alerts.Rule V))
        (as : List (Action Alerts.RuleInput (Alerts.Finding V))) (s),
      Runs.Meets (rules V metric).step (rules V metric).InTime (Design.initial row) as →
        Runs.exec (rules V metric).step (Design.initial row) as = some s → (rules V metric).Kept s :=
  ⟨fun row as s hmeets hrun => Design.kept_of_run row as s hmeets hrun,
    fun _ row as s hmeets hrun => Design.kept_of_run row as s hmeets hrun⟩

/-- A check that is over before the monitor is turned off, and one that finds the row as it
was saved. -/
def checkedInTurn : List (Action Monitor.ConfigPatch Found) :=
  [.read 0 (Monitor.switch true), .write 0, .load 1, .finish 1 (.probed [] [] Monitor.failing 1),
    .load 2, .read 3 ⟨none, none, none, some 20, none, none, none⟩,
    .finish 2 (.probed [⟨1, false⟩] [] Monitor.failing 2), .write 3, .load 4, .finish 4 .deploying,
    .read 5 (Monitor.switch false), .write 5]

def evaluatedInTurn : List (Action Alerts.RuleInput (Alerts.Finding Nat)) :=
  [.read 0 ⟨some true, some 80, none⟩, .write 0, .load 1, .finish 1 (.evaluated true (some 95) 60000),
    .load 2, .finish 2 (.evaluated true (some 97) 120000), .read 3 ⟨none, some 99, none⟩, .write 3,
    .load 4, .finish 4 .stopped]

theorem saves_survive_sample :
    (∃ s, Runs.exec monitors.step (Design.initial none) checkedInTurn = some s ∧ monitors.Kept s) ∧
      ∃ s, Runs.exec (rules Nat .memory).step (Design.initial none) evaluatedInTurn = some s ∧
        (rules Nat .memory).Kept s := by
  obtain ⟨s, hs⟩ := Option.isSome_iff_exists.mp
    (by decide : (Runs.exec monitors.step (Design.initial none) checkedInTurn).isSome = true)
  obtain ⟨t, ht⟩ := Option.isSome_iff_exists.mp
    (by decide :
      (Runs.exec (rules Nat .memory).step (Design.initial none) evaluatedInTurn).isSome = true)
  exact ⟨⟨s, hs, (saves_survive Nat).1 none checkedInTurn s (by decide) hs⟩,
    ⟨t, ht, (saves_survive Nat).2 .memory none evaluatedInTurn t (by decide) ht⟩⟩

def turnedOffMeanwhile : List (Action Monitor.ConfigPatch Found) :=
  [.read 0 (Monitor.switch true), .write 0, .load 1, .finish 1 (.probed [] [] Monitor.failing 1),
    .load 2, .read 3 (Monitor.switch false), .write 3,
    .finish 2 (.probed [⟨1, false⟩] [] Monitor.failing 2)]

/-- The monitor is on again, and down. -/
theorem check_reverts_save :
    ¬ ∀ (as : List (Action Monitor.ConfigPatch Found)) (s),
      Runs.exec monitors.step (Design.initial none) as = some s → monitors.Kept s := by
  intro h
  obtain ⟨s, hs⟩ := Option.isSome_iff_exists.mp
    (by decide : (Runs.exec monitors.step (Design.initial none) turnedOffMeanwhile).isSome = true)
  have hshown : (Runs.exec monitors.step (Design.initial none) turnedOffMeanwhile).map
      (fun s => (s.saved.map Monitor.Config.enabled, s.row.map fun m => m.config.enabled,
        s.standing, s.row.map monitors.atRest)) =
      some (some false, some true, true, some false) := by decide
  rw [hs, Option.map_some, Option.some.injEq] at hshown
  obtain ⟨m, hm⟩ : ∃ m, s.row = some m := by
    cases hrow : s.row with
    | none => simp [hrow] at hshown
    | some m => exact ⟨m, rfl⟩
  simp only [hm, Option.map_some, Prod.mk.injEq, Option.some.injEq] at hshown
  have hrest := (h turnedOffMeanwhile s hs).reset hshown.2.2.1 m hm
  rw [hshown.2.2.2] at hrest
  cases hrest

end Aoox.EvaluatedRows
