import Aoox.Runs

/-! # Provisioning and removing a managed database

A database is provisioned in the background: the image is pulled, the volume
created, the old container replaced, and `readyAt` is set the first time the engine
answers.  A retry of a database that never answered first wipes its volume
(`wipeNeverReady`), after a look at the row.  A run that finds the row gone removes
the volume too, since "nobody owns it now".  Removing a database without `purge`
leaves the volume where it is.

Each of these looks at the row and acts later.  A retry of a database that was
ready, overtaken by a removal, takes the volume the removal has kept
(`kept_volume_removed`); so does a wipe during which another run becomes ready.
Nothing is lost as long as no ready database is deleted under a background run and
none becomes ready under a wipe (`ready_volume_kept`).
-/
open Option Function
namespace Aoox.Provisioning

inductive Status where
  | creating | running | stopped | error
  deriving DecidableEq, Repr

/-- The row, the daemon and what has happened. -/
structure Db where
  row : Bool
  status : Status
  /-- The message is `INTERRUPTED_MESSAGE`. -/
  (interrupted readyAt historyTracked container volume : Bool)
  /-- `readyAt` was set at some time. -/
  everReady : Bool
  /-- Every removal of the volume: whether the database had been ready, and whether
  it was a purge. -/
  removals : List (Bool × Bool)
  deriving Repr

/-- Where a run stands: what it does next. -/
inductive Phase where
  /-- `retryProvisioning` has read the row. -/
  | loaded
  | wipeCheck | wipeContainer | wipeVolume | wipeMounts
  | pulling | creating | preparing | replacing | starting | answered | finishing
  /-- The row was found gone. -/
  | deleted
  | failed
  deriving DecidableEq, Repr

/-- A run with the copy it was handed. -/
structure Run where
  (background freshVolumes readyAt touched : Bool)
  phase : Phase
  deriving Repr

inductive RemovalPhase where
  | loaded | stripped | purged
  deriving Repr

structure Removal where
  purge : Bool
  phase : RemovalPhase
  deriving Repr

structure State where
  db : Db
  runs : Nat → Option Run
  removes : Nat → Option Removal

inductive Action where
  /-- The next call of run `p`, which may fail. -/
  | advance (p : Nat) (ok : Bool)
  | retry (p : Nat)
  | reprovision (p : Nat)
  | remove (p : Nat) (purge : Bool)
  | advanceRemoval (p : Nat) (ok : Bool)
  | restart

/-- The daemon removes a volume that no container uses. -/
def Db.removeVolume (d : Db) (purge : Bool) : Db :=
  if d.container then d
  else { d with volume := false, removals := (d.everReady, purge) :: d.removals }

/-- `repo.update` on a row that may be gone. -/
def Db.setStatus (d : Db) (status : Status) : Db :=
  if d.row then { d with status := status, interrupted := false } else d

/-- The first time the engine answers. -/
def Db.setReady (d : Db) : Db :=
  if d.row then { d with readyAt := true, everReady := true } else d

/-- How a run that failed ends. -/
def settleFailure (d : Db) (r : Run) : Db :=
  if r.background || r.touched then d.setStatus .error else d

/-- The next call of a run. -/
def advance (d : Db) (r : Run) (ok : Bool) : Db × Option Run :=
  let go := fun (d : Db) (next : Phase) => (d, some { r with phase := next })
  match r.phase, ok with
  | .loaded, true => go (d.setStatus .creating) (if r.freshVolumes then .wipeCheck else .pulling)
  | .loaded, false => (d, none)
  | .wipeCheck, true =>
    if !d.row then go d .deleted
    else if d.readyAt || !d.historyTracked then go d .failed
    else go d .wipeContainer
  | .wipeContainer, true => go { d with container := false } .wipeVolume
  | .wipeVolume, true => if d.container then go d .failed else go (d.removeVolume false) .wipeMounts
  | .wipeMounts, true => go d .pulling
  -- the row may have been deleted during the pull
  | .pulling, true => go d (if d.row then .creating else .deleted)
  | .creating, true => go { d with volume := true } .preparing
  | .preparing, true =>
    ({ d with container := false }, some { r with touched := true, phase := .replacing })
  | .replacing, true =>
    if d.container then go d .failed else go { d with container := true, volume := true } .starting
  | .starting, true => go d (if d.container then .answered else .failed)
  | .answered, true =>
    if r.readyAt then go d .finishing
    else (d.setReady, some { r with readyAt := true, phase := .finishing })
  | .finishing, true =>
    if d.row then (if r.background then d.setStatus .running else d, none)
    else go { d with container := false } .deleted
  -- only the background run cleans up
  | .deleted, ok => (if ok && r.background then d.removeVolume false else d, none)
  | .failed, _ => (settleFailure d r, none)
  | _, false => go d .failed

attribute [local simp] advance

/-- `historyTracked && !readyAt`. -/
def Db.retriesFresh (d : Db) : Bool := d.historyTracked && !d.readyAt

def advanceRemoval (d : Db) (m : Removal) : Db × Option Removal :=
  match m.phase with
  | .loaded => ({ d with container := false }, some { m with phase := .stripped })
  | .stripped =>
    (if m.purge then d.removeVolume true else d, some { m with phase := .purged })
  | .purged => ({ d with row := false }, none)

/-- A new row and the run that provisions it. -/
def initial (historyTracked : Bool) : State where
  db :=
    { row := true
      status := .creating
      interrupted := false
      readyAt := false
      historyTracked := historyTracked
      container := false
      volume := false
      everReady := false
      removals := [] }
  runs := fun p => if p = 0 then some ⟨true, false, false, false, .pulling⟩ else none
  removes := fun _ => none

def step (s : State) : Action → Option State
  | .advance p ok =>
    match s.runs p with
    | some r =>
      some
        { s with
          db := (advance s.db r ok).1
          runs := Function.update s.runs p (advance s.db r ok).2 }
    | none => none
  | .retry p =>
    if (s.runs p).isNone && s.db.row && s.db.status = .error && !s.db.interrupted then
      some
        { s with
          runs := Function.update s.runs p
            (some ⟨true, s.db.retriesFresh, s.db.readyAt, false, .loaded⟩) }
    else none
  | .reprovision p =>
    if (s.runs p).isNone && s.db.row && (s.db.status = .running || s.db.status = .stopped) then
      some
        { s with runs := Function.update s.runs p (some ⟨false, false, s.db.readyAt, false, .pulling⟩) }
    else none
  | .remove p purge =>
    -- `assertNotStarting`
    if (s.removes p).isNone && s.db.row && s.db.status ≠ .creating then
      some { s with removes := Function.update s.removes p (some ⟨purge, .loaded⟩) }
    else none
  | .advanceRemoval p ok =>
    match s.removes p with
    | some m =>
      if ok then
        some
          { s with
            db := (advanceRemoval s.db m).1
            removes := Function.update s.removes p (advanceRemoval s.db m).2 }
      else some { s with removes := Function.update s.removes p none }
    | none => none
  | .restart =>
    some
      { db :=
          if s.db.row && s.db.status = .creating then
            { s.db with status := .error, interrupted := true }
          else s.db
        runs := fun _ => none
        removes := fun _ => none }

/-- The volume of a database that was ever ready went by a purge only. -/
def Safe (d : Db) : Prop := ∀ e ∈ d.removals, e.1 = true → e.2 = true

/-- A run between its look at the row and its removal of the volume. -/
def Run.wiping (r : Run) : Bool := r.phase = .wipeContainer || r.phase = .wipeVolume

/-- No database becomes ready under a wipe, and no ready one is deleted under a
background run. -/
def Undisturbed (s : State) : Action → Prop
  | .advance p true => ∀ r, s.runs p = some r → r.phase = .answered → r.readyAt = false →
      ∀ q r', s.runs q = some r' → r'.wiping = false
  | .advanceRemoval p true => ∀ m, s.removes p = some m → m.phase = .purged →
      s.db.everReady = true → ∀ q r, s.runs q = some r → r.background = false
  | _ => True

/-- What holds of a run in flight. -/
structure Run.Sound (d : Db) (r : Run) : Prop where
  wiping : r.wiping = true → d.everReady = false
  owned : r.background = true → d.everReady = true → d.row = true
  deleted : r.phase = .deleted → d.row = false

structure Inv (s : State) : Prop where
  ready : s.db.row = true → s.db.readyAt = false → s.db.everReady = false
  runs : ∀ p r, s.runs p = some r → r.Sound s.db
  safe : Safe s.db

variable {d d' : Db} {r r' : Run}

/-- The row and its history stay as they are, and so does safety. -/
structure Calm (d d' : Db) : Prop where
  row : d'.row = d.row
  readyAt : d'.readyAt = d.readyAt
  everReady : d'.everReady = d.everReady
  safe : Safe d → Safe d'

theorem Calm.refl (d : Db) : Calm d d := ⟨rfl, rfl, rfl, id⟩

theorem Run.Sound.calm (h : r.Sound d) (hcalm : Calm d d') : r.Sound d' where
  wiping hw := by rw [hcalm.everReady]; exact h.wiping hw
  owned hb := by rw [hcalm.everReady, hcalm.row]; exact h.owned hb
  deleted hd := by rw [hcalm.row]; exact h.deleted hd

theorem calm_setStatus (d : Db) (status : Status) : Calm d (d.setStatus status) := by
  unfold Db.setStatus
  split <;> exact ⟨rfl, rfl, rfl, id⟩

/-- A removal is safe when it is a purge or the database was never ready. -/
theorem calm_removeVolume {purge : Bool} (h : d.everReady = true → purge = true) :
    Calm d (d.removeVolume purge) := by
  unfold Db.removeVolume
  split
  · exact Calm.refl d
  · refine ⟨rfl, rfl, rfl, fun hsafe e he => ?_⟩
    rcases List.mem_cons.mp he with rfl | he
    · exact h
    · exact hsafe e he

theorem calm_settleFailure (d : Db) (r : Run) : Calm d (settleFailure d r) := by
  unfold settleFailure
  split
  · exact calm_setStatus d _
  · exact Calm.refl d

theorem Run.Sound.never_ready (h : r.Sound d) (hb : r.background = true) (hd : r.phase = .deleted) :
    d.everReady = false := by
  by_contra hever
  have hrow := h.owned hb (by simpa using hever)
  rw [h.deleted hd] at hrow
  cases hrow

/-- What one call of a run does: nothing to the row and its history, or it records
that the engine answered. -/
theorem advance_calm (h : r.Sound d) (ok : Bool) :
    Calm d (advance d r ok).1 ∨
      (ok = true ∧ r.phase = .answered ∧ r.readyAt = false ∧ (advance d r ok).1 = d.setReady) := by
  cases ok with
  | false =>
    cases hphase : r.phase
    case failed => exact Or.inl (by simpa only [advance, hphase] using calm_settleFailure d r)
    all_goals exact Or.inl (by simpa [advance, hphase] using Calm.refl d)
  | true =>
    cases hphase : r.phase with
    | loaded => exact Or.inl (by simpa only [advance, hphase] using calm_setStatus d .creating)
    | wipeVolume =>
      refine Or.inl ?_
      simp only [advance, hphase]
      split
      · exact Calm.refl d
      · refine calm_removeVolume fun hever => ?_
        rw [h.wiping (by simp [Run.wiping, hphase])] at hever
        cases hever
    | answered =>
      simp only [advance, hphase]
      split
      · exact Or.inl (Calm.refl d)
      · next hready => exact Or.inr ⟨trivial, trivial, by simpa using hready, rfl⟩
    | finishing =>
      refine Or.inl ?_
      simp only [advance, hphase]
      split
      · split
        · exact calm_setStatus d .running
        · exact Calm.refl d
      · exact ⟨rfl, rfl, rfl, id⟩
    | deleted =>
      refine Or.inl ?_
      simp only [advance, hphase, Bool.true_and]
      split
      · next hb =>
        refine calm_removeVolume fun hever => ?_
        rw [h.never_ready hb hphase] at hever
        cases hever
      · exact Calm.refl d
    | failed => exact Or.inl (by simpa only [advance, hphase] using calm_settleFailure d r)
    | wipeCheck =>
      refine Or.inl ?_
      simp only [advance, hphase]
      split
      · exact Calm.refl d
      · split <;> exact Calm.refl d
    | replacing =>
      refine Or.inl ?_
      simp only [advance, hphase]
      split <;> exact ⟨rfl, rfl, rfl, id⟩
    | wipeContainer | creating | preparing =>
      exact Or.inl (by simp only [advance, hphase]; exact ⟨rfl, rfl, rfl, id⟩)
    | wipeMounts | pulling | starting =>
      exact Or.inl (by simp only [advance, hphase]; exact Calm.refl d)

/-- The phases in which a run relies on what it has read. -/
def Phase.relies : Phase → Bool
  | .wipeContainer | .wipeVolume | .deleted => true
  | _ => false

/-- Most phases lead to one that relies on nothing. -/
theorem Run.Sound.goto (h : r.Sound d) {next : Phase} (hnext : next.relies = false)
    (touched readyAt : Bool) :
    Run.Sound d { r with phase := next, touched := touched, readyAt := readyAt } := by
  have hnot : next ≠ .wipeContainer ∧ next ≠ .wipeVolume ∧ next ≠ .deleted := by
    cases next <;> simp [Phase.relies] at hnext ⊢
  exact ⟨fun hw => by simp [Run.wiping, hnot] at hw, h.owned, fun heq => absurd heq hnot.2.2⟩

theorem Run.Sound.gone (h : r.Sound d) (hrow : d.row = false) :
    Run.Sound d { r with phase := .deleted } :=
  ⟨fun hw => by simp [Run.wiping] at hw, h.owned, fun _ => hrow⟩

/-- Where a run stands after a call: it wipes only what was never ready, and finds
the row gone only when it is. -/
theorem advance_run (h : r.Sound d)
    (hready : d.row = true → d.readyAt = false → d.everReady = false) (ok : Bool)
    (hr' : (advance d r ok).2 = some r') : r'.Sound d := by
  have hfailed : Run.Sound d { r with phase := .failed } := h.goto rfl r.touched r.readyAt
  cases ok with
  | false =>
    cases hphase : r.phase
    case loaded | deleted | failed => simp [advance, hphase] at hr'
    all_goals
      obtain rfl : { r with phase := .failed } = r' := by simpa [advance, hphase] using hr'
      exact hfailed
  | true =>
    cases hphase : r.phase with
    | loaded =>
      simp only [advance, hphase, some.injEq] at hr'
      subst hr'
      exact h.goto (by split <;> rfl) r.touched r.readyAt
    | wipeCheck =>
      simp only [advance, hphase] at hr'
      split at hr'
      · next hrow =>
        obtain rfl := some.inj hr'
        exact h.gone (by simpa using hrow)
      · next hrow =>
        split at hr'
        · obtain rfl := some.inj hr'
          exact hfailed
        · next hready' =>
          obtain rfl := some.inj hr'
          simp only [Bool.not_eq_true', Bool.not_eq_false, Bool.or_eq_true, not_or,
            Bool.not_eq_true] at hrow hready'
          exact ⟨fun _ => hready hrow hready'.1, h.owned, fun heq => by cases heq⟩
    | wipeContainer =>
      simp only [advance, hphase, some.injEq] at hr'
      subst hr'
      exact ⟨fun _ => h.wiping (by simp [Run.wiping, hphase]), h.owned, fun heq => by cases heq⟩
    | wipeVolume | replacing =>
      simp only [advance, hphase] at hr'
      split at hr'
      · obtain rfl := some.inj hr'
        exact hfailed
      · obtain rfl := some.inj hr'
        exact h.goto rfl r.touched r.readyAt
    | wipeMounts | creating | preparing =>
      simp only [advance, hphase, some.injEq] at hr'
      subst hr'
      exact h.goto rfl _ r.readyAt
    | pulling =>
      simp only [advance, hphase, some.injEq] at hr'
      subst hr'
      have hcreating : Run.Sound d { r with phase := .creating } := h.goto rfl r.touched r.readyAt
      by_cases hrow : d.row = true
      · simpa [hrow] using hcreating
      · simpa [hrow] using h.gone (by simpa using hrow)
    | starting =>
      simp only [advance, hphase, some.injEq] at hr'
      subst hr'
      exact h.goto (by split <;> rfl) r.touched r.readyAt
    | answered =>
      simp only [advance, hphase] at hr'
      split at hr'
      · obtain rfl := some.inj hr'
        exact h.goto rfl r.touched r.readyAt
      · obtain rfl := some.inj hr'
        exact h.goto rfl r.touched true
    | finishing =>
      simp only [advance, hphase] at hr'
      split at hr'
      · cases hr'
      · next hrow =>
        obtain rfl := some.inj hr'
        exact h.gone (by simpa using hrow)
    | deleted | failed => simp [advance, hphase] at hr'

variable {s : State}

/-- The invariant across a step that leaves the row and its history alone. -/
theorem Inv.calm {s' : State} (hinv : Inv s) (hcalm : Calm s.db s'.db)
    (hruns : ∀ q r, s'.runs q = some r → r.Sound s.db) : Inv s' where
  ready hrow hready := by
    rw [hcalm.everReady]
    exact hinv.ready (hcalm.row ▸ hrow) (hcalm.readyAt ▸ hready)
  runs q r hr := (hruns q r hr).calm hcalm
  safe := hcalm.safe hinv.safe

variable {p : Nat}

/-- The engine answers while no wipe is under way. -/
theorem Inv.setReady {v : Option Run} (hinv : Inv s) (hrow : s.db.row = true)
    (hwiping : ∀ q r, s.runs q = some r → r.wiping = false)
    (hv : ∀ r, v = some r → r.phase = .finishing) :
    Inv { s with db := s.db.setReady, runs := update s.runs p v } := by
  have heq : s.db.setReady = { s.db with readyAt := true, everReady := true } := if_pos hrow
  rw [heq]
  refine ⟨fun _ hready => by (cases hready), fun q r hr => ?_, hinv.safe⟩
  rcases Runs.update_eq_some hr with ⟨-, hr⟩ | ⟨-, hr⟩
  · have hphase := hv r hr
    refine ⟨fun hw => ?_, fun _ _ => hrow, fun hd => ?_⟩
    · simp [Run.wiping, hphase] at hw
    · rw [hphase] at hd
      cases hd
  · refine ⟨fun hw => ?_, fun _ _ => hrow, (hinv.runs q r hr).deleted⟩
    rw [hwiping q r hr] at hw
    cases hw

theorem inv_advance {r : Run} {ok : Bool} (hinv : Inv s) (hr : s.runs p = some r)
    (hcond : Undisturbed s (.advance p ok)) :
    Inv { s with
      db := (advance s.db r ok).1
      runs := update s.runs p (advance s.db r ok).2 } := by
  have hsound := hinv.runs p r hr
  have hruns : ∀ q r', update s.runs p (advance s.db r ok).2 q = some r' →
      r'.Sound s.db := by
    intro q r' hr'
    rcases Runs.update_eq_some hr' with ⟨-, hr'⟩ | ⟨-, hr'⟩
    · exact advance_run hsound hinv.ready ok hr'
    · exact hinv.runs q r' hr'
  rcases advance_calm hsound ok with hcalm | ⟨rfl, hphase, hready, heq⟩
  · exact hinv.calm hcalm hruns
  · rw [heq]
    cases hrow : s.db.row with
    | true =>
      refine hinv.setReady hrow (hcond r hr hphase hready) fun r' hr' => ?_
      simp only [advance, hphase, hready, Bool.false_eq_true, if_false, some.injEq] at hr'
      rw [← hr']
    | false =>
      -- there is no row left to mark
      have hsame : s.db.setReady = s.db := by simp [Db.setReady, hrow]
      rw [hsame]
      exact hinv.calm (Calm.refl s.db) hruns

theorem inv_advanceRemoval {m : Removal} (hinv : Inv s) (hm : s.removes p = some m)
    (hcond : Undisturbed s (.advanceRemoval p true)) :
    Inv { s with
      db := (advanceRemoval s.db m).1
      removes := update s.removes p (advanceRemoval s.db m).2 } := by
  cases hphase : m.phase with
  | loaded =>
    refine hinv.calm ?_ hinv.runs
    simp only [advanceRemoval, hphase]
    exact ⟨rfl, rfl, rfl, id⟩
  | stripped =>
    refine hinv.calm ?_ hinv.runs
    simp only [advanceRemoval, hphase]
    split
    · exact calm_removeVolume fun _ => rfl
    · exact Calm.refl s.db
  | purged =>
    simp only [advanceRemoval, hphase]
    refine ⟨fun hrow => by (cases hrow), fun q r hr => ?_, hinv.safe⟩
    have hold := hinv.runs q r hr
    refine ⟨hold.wiping, fun hb hever => ?_, fun _ => rfl⟩
    rw [hcond m hm hphase hever q r hr] at hb
    cases hb

/-- A run that starts while the row exists. -/
theorem Inv.launch {r : Run} (hinv : Inv s) (hrow : s.db.row = true) (hwiping : r.wiping = false)
    (hphase : r.phase ≠ .deleted) : Inv { s with runs := update s.runs p (some r) } := by
  refine hinv.calm (Calm.refl s.db) fun q r' hr' => ?_
  rcases Runs.update_eq_some hr' with ⟨-, hr'⟩ | ⟨-, hr'⟩
  · obtain rfl := some.inj hr'
    refine ⟨fun hw => ?_, fun _ _ => hrow, fun hd => absurd hd hphase⟩
    rw [hwiping] at hw
    cases hw
  · exact hinv.runs q r' hr'

theorem inv_step (s : State) (a : Action) (s' : State) (hinv : Inv s) (hcond : Undisturbed s a)
    (h : step s a = some s') : Inv s' := by
  cases a with
  | advance p ok =>
    simp only [step] at h
    split at h
    · next r hr =>
      obtain rfl := some.inj h
      exact inv_advance hinv hr hcond
    · cases h
  | retry p =>
    simp only [step] at h
    split at h
    · next hok =>
      simp only [Bool.and_eq_true, decide_eq_true_eq] at hok
      obtain rfl := some.inj h
      exact hinv.launch hok.1.1.2 rfl (by intro hd; cases hd)
    · cases h
  | reprovision p =>
    simp only [step] at h
    split at h
    · next hok =>
      simp only [Bool.and_eq_true] at hok
      obtain rfl := some.inj h
      exact hinv.launch hok.1.2 rfl (by intro hd; cases hd)
    · cases h
  | remove p purge =>
    simp only [step] at h
    split at h
    · obtain rfl := some.inj h
      exact hinv.calm (Calm.refl s.db) hinv.runs
    · cases h
  | advanceRemoval p ok =>
    simp only [step] at h
    split at h
    · next m hm =>
      cases ok with
      | true =>
        obtain rfl := some.inj h
        exact inv_advanceRemoval hinv hm hcond
      | false =>
        obtain rfl := some.inj h
        exact hinv.calm (Calm.refl s.db) hinv.runs
    · cases h
  | restart =>
    obtain rfl := some.inj h
    refine hinv.calm ?_ fun q r hr => by cases hr
    dsimp only
    split
    · exact ⟨rfl, rfl, rfl, id⟩
    · exact Calm.refl s.db

theorem inv_initial (historyTracked : Bool) : Inv (initial historyTracked) where
  ready _ _ := rfl
  runs p r hr := by
    by_cases hp : p = 0
    · simp only [initial, hp, if_true, some.injEq] at hr
      subst hr
      exact ⟨fun hw => by (cases hw), fun _ hever => by (cases hever), fun hd => by (cases hd)⟩
    · simp [initial, hp] at hr
  safe e he := by cases he

/-- **The volume of a database that was ever ready goes by a purge only**, in every
state of a run in which nothing disturbs a wipe or a background run. -/
theorem ready_volume_kept (historyTracked : Bool) (as : List Action) (s : State)
    (hmeets : Runs.Meets step Undisturbed (initial historyTracked) as)
    (hexec : Runs.exec step (initial historyTracked) as = some s) : Safe s.db :=
  (Runs.exec_invariant inv_step as _ s (inv_initial historyTracked) hmeets hexec).safe

/-- Nobody but `p` provisions. -/
def Only (s : State) (p : Nat) : Prop := ∀ q r, s.runs q = some r → q = p

/-- A run on its own disturbs nobody. -/
theorem undisturbed_of_only (h : Only s p) (ok : Bool) : Undisturbed s (.advance p ok) := by
  cases ok with
  | false => trivial
  | true =>
    intro r hr hphase _ q r' hr'
    obtain rfl := h q r' hr'
    obtain rfl := some.inj (hr.symm.trans hr')
    simp [Run.wiping, hphase]

/-- The calls of a run that succeeds. -/
def provisioned (p n : Nat) : List Action := List.replicate n (.advance p true)

theorem meets_provisioned (p n : Nat) (as : List Action) (s : State) (h : Only s p)
    (has : ∀ s', Runs.exec step s (provisioned p n) = some s' →
      Runs.Meets step Undisturbed s' as) :
    Runs.Meets step Undisturbed s (provisioned p n ++ as) := by
  induction n generalizing s with
  | zero => exact has s rfl
  | succ n ih =>
    refine ⟨undisturbed_of_only h true, fun s' hs' => ih s' ?_ fun s'' hs'' => ?_⟩
    · simp only [step] at hs'
      split at hs'
      · obtain rfl := some.inj hs'
        intro q r hr
        rcases Runs.update_eq_some hr with ⟨hq, -⟩ | ⟨-, hr⟩
        · exact hq
        · exact h q r hr
      · cases hs'
    · exact has s'' (Runs.exec_cons.mpr ⟨s', hs', hs''⟩)

/-- A database becomes ready and is removed; its volume stays. -/
def removedLater : List Action :=
  provisioned 0 7 ++
    [.remove 1 false, .advanceRemoval 1 true, .advanceRemoval 1 true, .advanceRemoval 1 true]

theorem ready_volume_kept_removedLater : ∃ s,
    Runs.exec step (initial true) removedLater = some s ∧ s.db.row = false ∧
      s.db.everReady = true ∧ s.db.volume = true ∧ Safe s.db := by
  refine ⟨_, rfl, rfl, rfl, rfl, ready_volume_kept true removedLater _ ?_ rfl⟩
  refine meets_provisioned 0 7 _ _ ?_ fun s hs => ?_
  · intro q r hr
    by_contra hq
    simp [initial, hq] at hr
  · obtain rfl := Option.some.inj hs
    refine Runs.meets_cons rfl trivial ?_
    refine Runs.meets_cons rfl (fun m hm hphase => by cases hm; cases hphase) ?_
    refine Runs.meets_cons rfl (fun m hm hphase => by cases hm; cases hphase) ?_
    refine Runs.meets_cons rfl (fun m hm hphase _ q r hr => ?_) trivial
    by_cases hq : q = 0
    · subst hq
      cases hr
    · simp [initial, hq] at hr

/-- A database becomes ready; a later change of its container fails. -/
def brokenLater : List Action :=
  provisioned 0 7 ++ [.reprovision 1] ++ provisioned 1 3 ++ [.advance 1 false, .advance 1 true]

/-- The removal has read the row before the retry starts and deletes it after. -/
def removedUnderRetry : List Action :=
  brokenLater ++ [.remove 3 false, .retry 2, .advance 2 true, .advanceRemoval 3 true,
    .advanceRemoval 3 true, .advanceRemoval 3 true, .advance 2 true, .advance 2 true]

theorem kept_volume_removed : ¬ ∀ (historyTracked : Bool) (as : List Action) (s : State),
    Runs.exec step (initial historyTracked) as = some s → Safe s.db := by
  intro h
  have hsafe := h true removedUnderRetry _ rfl
  exact absurd (hsafe (true, false) (by decide) rfl) (by decide)

end Aoox.Provisioning
