import Aoox.ResourceAlerts
import Mathlib.Data.List.Chain

/-! # Evaluating alert rules

`evaluateBreach` decides whether the minute rows of a window show a breach, and
`nextAlertState` is called with its answer once a minute.  A breach is settled by how many
rows the window holds, their values and the time of the newest, none of which depends on the
order of the rows (`breaches_iff`).

The status of a rule is what its last two evaluations were (`statusOf`), so an alert is sent
on a second breach in a row and a recovery ends it.  Behind an alert the state keeps the time
of the last notification, and a reminder has to wait from there (`spaced_sent`).
-/
open Option Bool
namespace Aoox.Alerts

/-! ## The window -/

-- the values of a metric
variable {V : Type}

structure MinuteReading (V : Type) where
  readAt : Time
  cpuPercent : Option V
  (memoryBytes memoryLimitBytes : V)

/-- The newest reading may be at most this old. -/
def MAX_STALENESS_MS : Time := 3 * 60000

/-- The time the readings of the window lie behind. -/
def floorOf (durationMinutes : Nat) (now : Time) (notBefore : Option Time) : Time :=
  max (now - durationMinutes * 60000 - 15000) (notBefore.getD 0)

/-- One missing minute is tolerated for windows of three minutes and longer. -/
def requiredReadings (durationMinutes : Nat) : Nat :=
  if 3 ≤ durationMinutes then durationMinutes - 1 else durationMinutes

/-- The readings behind the floor, oldest first. -/
def inWindow (rows : List (MinuteReading V)) (floor : Time) : List (MinuteReading V) :=
  (rows.filter fun r => floor < r.readAt).mergeSort fun a b => a.readAt ≤ b.readAt

section
variable {rows : List (MinuteReading V)} {floor : Time}

theorem mem_inWindow {r : MinuteReading V} :
    r ∈ inWindow rows floor ↔ r ∈ rows ∧ floor < r.readAt := by
  simp [inWindow]

theorem length_inWindow : (inWindow rows floor).length = rows.countP fun r => floor < r.readAt := by
  rw [inWindow, List.length_mergeSort, List.countP_eq_length_filter]

theorem sorted_inWindow : (inWindow rows floor).Pairwise fun a b => a.readAt ≤ b.readAt := by
  have hsorted := @List.pairwise_mergeSort _ (fun a b : MinuteReading V => a.readAt ≤ b.readAt)
    (fun a b c hab hbc => by
      simp only [decide_eq_true_eq] at hab hbc ⊢
      exact Int.le_trans hab hbc)
    (fun a b => by
      simp only [or_eq_true, decide_eq_true_eq]
      exact Int.le_total _ _) (rows.filter fun r => floor < r.readAt)
  exact hsorted.imp of_decide_eq_true

theorem readAt_le_getLast {newest r : MinuteReading V}
    (hnewest : (inWindow rows floor).getLast? = some newest) (hr : r ∈ inWindow rows floor) :
    r.readAt ≤ newest.readAt := by
  have hsorted := @sorted_inWindow V rows floor
  obtain ⟨front, hfront⟩ := List.getLast?_eq_some_iff.mp hnewest
  rw [hfront] at hsorted hr
  rcases List.mem_append.mp hr with hr | hr
  · exact (List.pairwise_append.mp hsorted).2.2 r hr newest (by simp)
  · obtain rfl := List.mem_singleton.mp hr
    exact Int.le_refl _

end

/-! ## A breach -/

-- numbers of JavaScript; nothing depends on the laws of their operations
variable [Zero V] [NatCast V] [Mul V] [Div V] [LT V] [DecidableLT V]

def metricValue (metric : Metric) (r : MinuteReading V) : Option V :=
  match metric with
  | .cpu => r.cpuPercent
  | .memory =>
    if 0 < r.memoryLimitBytes then some (r.memoryBytes / r.memoryLimitBytes * (100 : Nat)) else none

structure Evaluation (V : Type) where
  breaching : Bool
  latestValue : Option V

/-- `v !== null && v > threshold`. -/
def isAbove (threshold : V) (v : Option V) : Bool := v.any fun v => threshold < v

/-- `none` is the error of an empty window that asks for no reading. -/
def evaluateBreach (metric : Metric) (rows : List (MinuteReading V)) (threshold : V)
    (durationMinutes : Nat) (now : Time) (notBefore : Option Time) : Option (Evaluation V) :=
  let window := inWindow rows (floorOf durationMinutes now notBefore)
  let values := window.map (metricValue metric)
  let latestValue := values.getLast?.join
  if window.length < requiredReadings durationMinutes then some ⟨false, latestValue⟩
  else
    window.getLast?.map fun newest =>
      if MAX_STALENESS_MS < now - newest.readAt then ⟨false, latestValue⟩
      else ⟨values.all (isAbove threshold), latestValue⟩

def Breaches (metric : Metric) (rows : List (MinuteReading V)) (threshold : V)
    (durationMinutes : Nat) (now : Time) (notBefore : Option Time) : Prop :=
  ∃ e, evaluateBreach metric rows threshold durationMinutes now notBefore = some e ∧
    e.breaching = true

variable {metric : Metric} {rows rows' : List (MinuteReading V)} {threshold : V}
  {durationMinutes : Nat} {now floor : Time} {notBefore : Option Time}

theorem all_isAbove_iff :
    ((inWindow rows floor).map (metricValue metric)).all (isAbove threshold) = true ↔
      ∀ r ∈ rows, floor < r.readAt → ∃ v, metricValue metric r = some v ∧ threshold < v := by
  simp [isAbove, any_eq_true, mem_inWindow]

/-- The readings the window is judged by. -/
structure Shown (metric : Metric) (rows : List (MinuteReading V)) (threshold : V)
    (durationMinutes : Nat) (now floor : Time) : Prop where
  enough : requiredReadings durationMinutes ≤ rows.countP fun r => floor < r.readAt
  above : ∀ r ∈ rows, floor < r.readAt → ∃ v, metricValue metric r = some v ∧ threshold < v
  recent : ∃ newest ∈ rows, floor < newest.readAt ∧ (∀ r ∈ rows, r.readAt ≤ newest.readAt) ∧
    now - newest.readAt ≤ MAX_STALENESS_MS

/-- **When a breach is reported.**  The window holds enough readings, every one of them is above
the threshold, and the newest is recent. -/
theorem breaches_iff : Breaches metric rows threshold durationMinutes now notBefore ↔
      Shown metric rows threshold durationMinutes now (floorOf durationMinutes now notBefore) := by
  unfold Breaches evaluateBreach
  generalize floorOf durationMinutes now notBefore = floor
  simp only [length_inWindow]
  constructor
  · rintro ⟨e, he, hbreaching⟩
    split at he
    · obtain rfl := some.inj he
      cases hbreaching
    · rename_i henough
      obtain ⟨newest, hnewest, he⟩ := map_eq_some_iff.mp he
      split at he
      · subst he
        cases hbreaching
      · rename_i hrecent
        subst he
        obtain ⟨hmem, hfloor⟩ := mem_inWindow.mp (List.mem_of_getLast? hnewest)
        refine ⟨Nat.not_lt.mp henough, all_isAbove_iff.mp hbreaching, newest, hmem, hfloor,
          fun r hr => ?_, Int.not_lt.mp hrecent⟩
        by_cases hr' : floor < r.readAt
        · exact readAt_le_getLast hnewest (mem_inWindow.mpr ⟨hr, hr'⟩)
        · exact Int.le_trans (Int.not_lt.mp hr') (Int.le_of_lt hfloor)
  · rintro ⟨henough, habove, r, hr, hfloor, -, hrecent⟩
    have hmem : r ∈ inWindow rows floor := mem_inWindow.mpr ⟨hr, hfloor⟩
    obtain ⟨newest, hnewest⟩ := isSome_iff_exists.mp
      (List.getLast?_isSome.mpr (List.ne_nil_of_mem hmem))
    have hnewer : ¬ MAX_STALENESS_MS < now - newest.readAt := by
      have hle := readAt_le_getLast hnewest hmem
      refine Int.not_lt.mpr (Int.le_trans (Int.sub_le_sub_left hle now) hrecent)
    rw [if_neg (Nat.not_lt.mpr henough), hnewest]
    refine ⟨_, rfl, ?_⟩
    dsimp only
    rw [if_neg hnewer]
    exact all_isAbove_iff.mpr habove

/-- The order of the rows does not matter. -/
theorem Shown.perm (h : Shown metric rows threshold durationMinutes now floor)
    (hperm : rows.Perm rows') : Shown metric rows' threshold durationMinutes now floor := by
  obtain ⟨henough, habove, newest, hmem, hfloor, hnewest, hrecent⟩ := h
  refine ⟨?_, fun r hr => habove r (hperm.mem_iff.mpr hr), newest, hperm.mem_iff.mp hmem, hfloor,
    fun r hr => hnewest r (hperm.mem_iff.mpr hr), hrecent⟩
  rw [← hperm.countP_eq]
  exact henough

/-! ## Runs of evaluations -/

/-- What each evaluation sends, with its time. -/
def notify (reminder : Time) : AlertState → List (Bool × Time) → List (Option AlertAction × Time)
  | _, [] => []
  | s, (breaching, now) :: es =>
    let (s', action) := nextAlertState s breaching now reminder
    (action, now) :: notify reminder s' es

/-- The notifications. -/
def sent (reminder : Time) (s : AlertState) (es : List (Bool × Time)) : List (AlertAction × Time) :=
  (notify reminder s es).filterMap fun n => n.1.map fun action => (action, n.2)

/-- The status two evaluations in a row lead to. -/
def statusOf : Bool → Bool → AlertStatus
  | _, false => .ok
  | false, true => .pending
  | true, true => .alerting

variable {reminder : Time} {s : AlertState}

/-- **What one evaluation does**, by the two before it. -/
theorem nextAlertState_spec {b₀ b₁ : Bool} (h : s.status = statusOf b₀ b₁) (b : Bool) :
    (nextAlertState s b now reminder).1.status = statusOf b₁ b ∧
      ((nextAlertState s b now reminder).2 = some .alert ↔ b₀ = false ∧ b₁ = true ∧ b = true) := by
  unfold nextAlertState
  cases b₀ <;> cases b₁ <;> cases b <;> simp only [statusOf] at h ⊢ <;> rw [h]
  case true.true.true => by_cases hdue : s.lastAlertAt.getD 0 + reminder ≤ now <;> simp [hdue, h]
  all_goals simp [h]

theorem sent_cons (b : Bool) (es : List (Bool × Time)) : sent reminder s ((b, now) :: es) =
      ((nextAlertState s b now reminder).2.map fun action => (action, now)).toList ++
        sent reminder (nextAlertState s b now reminder).1 es := by
  simp only [sent, notify, List.filterMap_cons]
  cases (nextAlertState s b now reminder).2 <;> rfl

/-! ### Repeated episodes -/

def opened (reminders : Nat) : List AlertAction := .alert :: List.replicate reminders .reminder

/-- Finished episodes one after another, and behind them one that still goes on, if any. -/
def Episodes (actions : List AlertAction) : Prop :=
  ∃ (finished : List Nat) (ongoing : Option Nat),
    actions = finished.flatMap (fun reminders => opened reminders ++ [.recovered]) ++
      (ongoing.map opened).getD []

/-- The rest of an episode, and what comes behind it. -/
def Continues (actions : List AlertAction) : Prop :=
  ∃ reminders, actions = List.replicate reminders .reminder ∨
    ∃ later, Episodes later ∧ actions = List.replicate reminders .reminder ++ .recovered :: later

variable {actions : List AlertAction}

theorem Continues.alert (h : Continues actions) : Episodes (.alert :: actions) := by
  obtain ⟨reminders, rfl | ⟨later, ⟨finished, ongoing, rfl⟩, rfl⟩⟩ := h
  · exact ⟨[], some reminders, rfl⟩
  · exact ⟨reminders :: finished, ongoing, by simp [opened]⟩

theorem Continues.remind (h : Continues actions) : Continues (.reminder :: actions) := by
  obtain ⟨reminders, rfl | ⟨later, hlater, rfl⟩⟩ := h
  · exact ⟨reminders + 1, .inl rfl⟩
  · exact ⟨reminders + 1, .inr ⟨later, hlater, rfl⟩⟩

theorem Episodes.recovered (h : Episodes actions) :
    Continues (.recovered :: actions) := ⟨0, .inr ⟨actions, h, rfl⟩⟩

theorem episodes_sent (es : List (Bool × Time)) (s : AlertState) :
    (s.status ≠ .alerting → Episodes ((sent reminder s es).map Prod.fst)) ∧
      (s.status = .alerting → Continues ((sent reminder s es).map Prod.fst)) := by
  induction es generalizing s with
  | nil => exact ⟨fun _ => ⟨[], none, rfl⟩, fun _ => ⟨0, .inl rfl⟩⟩
  | cons e es ih =>
    obtain ⟨b, now⟩ := e
    rw [sent_cons]
    obtain ⟨hrest, halerting⟩ := ih (nextAlertState s b now reminder).1
    cases hstatus : s.status <;> cases b
    all_goals simp only [nextAlertState, hstatus] at hrest halerting ⊢
    case ok.false => exact ⟨fun _ => hrest (by simp [hstatus]), fun h => by cases h⟩
    case ok.true => exact ⟨fun _ => hrest (by simp), fun h => by cases h⟩
    case pending.false => exact ⟨fun _ => hrest (by simp), fun h => by cases h⟩
    case pending.true => exact ⟨fun _ => (halerting rfl).alert, fun h => by cases h⟩
    case alerting.false => exact ⟨fun h => absurd rfl h, fun _ => (hrest (by simp)).recovered⟩
    case alerting.true =>
      refine ⟨fun h => absurd rfl h, fun _ => ?_⟩
      by_cases hdue : s.lastAlertAt.getD 0 + reminder ≤ now
      · simp only [true_eq_false, if_false, hdue, if_true] at halerting ⊢
        exact (halerting trivial).remind
      · simp only [true_eq_false, if_false, hdue] at halerting ⊢
        exact halerting hstatus

/-! ### Between two notifications -/

/-- A reminder comes no sooner than `reminder` behind the notification before it. -/
def Spaced (reminder : Time) (x y : AlertAction × Time) : Prop :=
  y.1 = .reminder → x.2 + reminder ≤ y.2

theorem spaced_sent (es : List (Bool × Time)) (s : AlertState) (x : AlertAction × Time)
    (h : s.status = .alerting → s.lastAlertAt = some x.2) :
    (x :: sent reminder s es).IsChain (Spaced reminder) := by
  induction es generalizing s x with
  | nil => exact .singleton x
  | cons e es ih =>
    obtain ⟨b, now⟩ := e
    rw [sent_cons]
    have hrest := ih (nextAlertState s b now reminder).1
    cases hstatus : s.status <;> cases b
    all_goals simp only [nextAlertState, hstatus] at hrest ⊢
    case ok.false => exact hrest x h
    case ok.true => exact hrest x (fun h => by cases h)
    case pending.false => exact hrest x (fun h => by cases h)
    case pending.true =>
      exact .cons_cons (fun h => by cases h) (hrest (.alert, now) fun _ => rfl)
    case alerting.false =>
      exact .cons_cons (fun h => by cases h) (hrest (.recovered, now) fun h => by cases h)
    case alerting.true =>
      have hlast : s.lastAlertAt = some x.2 := h hstatus
      by_cases hdue : s.lastAlertAt.getD 0 + reminder ≤ now
      · simp only [true_eq_false, if_false, hdue, if_true] at hrest ⊢
        refine .cons_cons (fun _ => ?_) (hrest (.reminder, now) fun _ => rfl)
        simpa [hlast] using hdue
      · simp only [true_eq_false, if_false, hdue] at hrest ⊢
        exact hrest x h

/-! ### Alerts -/

/-- The alert of each evaluation, by it and the two before it. -/
theorem alert_iff (es : List (Bool × Time)) (s : AlertState) (b₀ b₁ : Bool)
    (h : s.status = statusOf b₀ b₁) (i : Nat) :
    ((notify reminder s es)[i]?.map Prod.fst = some (some .alert)) ↔
      let breaches := b₀ :: b₁ :: es.map Prod.fst
      breaches[i]? = some false ∧ breaches[i + 1]? = some true ∧ breaches[i + 2]? = some true := by
  induction es generalizing s b₀ b₁ i with
  | nil => simp [notify]
  | cons e es ih =>
    obtain ⟨b, now⟩ := e
    obtain ⟨hstatus, halert⟩ := @nextAlertState_spec now reminder s b₀ b₁ h b
    cases i with
    | zero => simpa [notify] using halert
    | succ i => simpa [notify] using ih _ b₁ b hstatus i

/-- **What a rule sends, and what counts as a breach.**  From a rule at rest the notifications
are episodes, each an alert, its reminders and one recovery, with at least the reminder time
before each reminder; an alert is sent when the last two evaluations breached and the one before
did not, the ones before the first counting as not breaching.  A breach is reported exactly when
the window is full, above the threshold throughout and recent, in whatever order the rows come. -/
theorem alerts_follow_breaches :
    (∀ (reminder : Time) (s : AlertState) (es : List (Bool × Time)), s.status = .ok →
      Episodes ((sent reminder s es).map Prod.fst) ∧
      (sent reminder s es).IsChain (Spaced reminder) ∧
      ∀ i, (notify reminder s es)[i]?.map Prod.fst = some (some .alert) ↔
        let breaches := false :: false :: es.map Prod.fst
        breaches[i]? = some false ∧ breaches[i + 1]? = some true ∧ breaches[i + 2]? = some true) ∧
    ∀ (metric : Metric) (rows : List (MinuteReading V)) (threshold : V) (durationMinutes : Nat)
      (now : Time) (notBefore : Option Time),
      (Breaches metric rows threshold durationMinutes now notBefore ↔
        Shown metric rows threshold durationMinutes now
          (floorOf durationMinutes now notBefore)) ∧
      ∀ rows', rows.Perm rows' →
        (Breaches metric rows threshold durationMinutes now notBefore ↔
          Breaches metric rows' threshold durationMinutes now notBefore) := by
  refine ⟨fun reminder s es hok => ⟨?_, ?_, fun i => ?_⟩, ?_⟩
  · exact (episodes_sent es s).1 (by simp [hok])
  · exact (spaced_sent es s (.recovered, 0) (by simp [hok])).tail
  · exact alert_iff es s false false hok i
  · intro metric rows threshold durationMinutes now notBefore
    refine ⟨breaches_iff, fun rows' hperm => ?_⟩
    rw [breaches_iff, breaches_iff]
    exact ⟨fun h => h.perm hperm, fun h => h.perm hperm.symm⟩

def atRest : AlertState := ⟨.ok, none, none⟩

def lastingBreach : List (Bool × Time) :=
  [(true, 0), (true, 60000), (true, 120000), (true, reminderMs + 60000),
    (false, reminderMs + 120000)]

theorem alerts_follow_breaches_lasting :
    (sent reminderMs atRest lastingBreach).map Prod.fst = [.alert, .reminder, .recovered] ∧
      Episodes ((sent reminderMs atRest lastingBreach).map Prod.fst) :=
  ⟨by decide, ((alerts_follow_breaches (V := Int)).1 reminderMs atRest lastingBreach rfl).1⟩

end Aoox.Alerts
