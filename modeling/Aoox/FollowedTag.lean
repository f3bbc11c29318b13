import Aoox.ImageUpdates

/-! # Moving an application to a new tag

`followTag` counts the deployments in flight, moves the row to the new tag, queues a
deployment, and puts the reference back when another one has taken the slot.  Other
writers and other deployments come between any two of these steps, so a run is a list of
actions in any order, and beside the row stands what it would be without the call
(`State.untouched`).

A call that gives up before its write leaves the row to the others.  One that loses the
slot behind it does not: the digest stays cleared and `autoUpdateLastTag` stays on the new
tag, so the next tick takes the tag for one that was tried (`slot_lost`).
-/
namespace Aoox.ImageUpdates
namespace FollowTag

open JsString Runs Option

/-- Columns that another writer sets. -/
structure Write where
  (imageRef imageDigest autoUpdateLastTag : Option (Option JsString))

def Write.apply (w : Write) (row : Copy) : Copy where
  imageRef := w.imageRef.getD row.imageRef
  imageDigest := w.imageDigest.getD row.imageDigest
  autoUpdateLastTag := w.autoUpdateLastTag.getD row.autoUpdateLastTag

/-- The await the call stands at. -/
inductive Phase where
  | counting
  | moving
  | queueing (oldRef : JsString) (oldDigest : Option JsString)
  /-- In the `catch` block; `conflict` is what the error is. -/
  | undoing (oldRef : JsString) (conflict : Bool)
  /-- The deployment queued, by what it would put back; `none` is `null`. -/
  | returned (queued : Option FollowRevert)
  | thrown

structure State where
  row : Copy
  /-- Each column as it was before the call, or as another writer has set it since. -/
  untouched : Copy
  /-- How many deployments of the application are in flight. -/
  active : Nat
  /-- The copy the call was handed. -/
  app : Copy
  phase : Phase

inductive Action where
  | write (w : Write)
  /-- Other deployments begin and end. -/
  | deployments (active : Nat)
  /-- The call goes on; what it awaits may fail. -/
  | next (fails : Bool)

def start (row app : Copy) (active : Nat) : State := ⟨row, row, active, app, .counting⟩

variable (newTag : JsString)

/-- The conditional update that moves the row. -/
def move (s : State) (oldRef : JsString) : State :=
  if s.row.imageRef = some oldRef then
    let moved : Copy := ⟨some (withTag oldRef newTag), none, some newTag⟩
    { s with row := moved, app := moved, phase := .queueing oldRef s.app.imageDigest }
  else { s with phase := .returned none }

/-- `deploy.queue`: a conflict when a deployment is in flight. -/
def queue (s : State) (oldRef : JsString) (oldDigest : Option JsString) : State :=
  if s.active > 0 then { s with phase := .undoing oldRef true }
  else
    { s with
      active := s.active + 1
      phase := .returned (some ⟨withTag oldRef newTag, oldRef, oldDigest⟩) }

/-- The `catch` block. -/
def undo (s : State) (oldRef : JsString) (conflict : Bool) : State :=
  { s with
    row :=
      if s.row.imageRef = some (withTag oldRef newTag) then
        { s.row with imageRef := some oldRef, imageDigest := none }
      else s.row
    app := { s.app with imageRef := some oldRef }
    phase := if conflict then .returned none else .thrown }

def next (s : State) (fails : Bool) : Option State :=
  match s.phase with
  | .counting =>
    if fails then some { s with phase := .thrown }
    else some { s with phase := if s.active > 0 then .returned none else .moving }
  | .moving =>
    if fails then some { s with phase := .thrown } else s.app.imageRef.map (move newTag s)
  | .queueing oldRef oldDigest =>
    if fails then some { s with phase := .undoing oldRef false }
    else some (queue newTag s oldRef oldDigest)
  | .undoing oldRef conflict =>
    if fails then some { s with phase := .thrown } else some (undo newTag s oldRef conflict)
  | .returned _ | .thrown => none

def step (s : State) : Action → Option State
  | .write w => some { s with row := w.apply s.row, untouched := w.apply s.untouched }
  | .deployments active => some { s with active := active }
  | .next fails => next newTag s fails

/-- A call that returns `null` has left every column to the others. -/
def LeftAlone (s : State) : Prop := s.phase = .returned none → s.row = s.untouched

def Phase.isQueueing : Phase → Bool
  | .queueing _ _ => true
  | _ => false

/-- Behind the queue call, without a deployment. -/
def Phase.isEnding : Phase → Bool
  | .undoing _ _ | .returned none | .thrown => true
  | _ => false

/-- No other deployment has taken the slot when the call queues its own. -/
def SlotFree (s : State) : Action → Prop
  | .next false => s.phase.isQueueing = true → s.active = 0
  | _ => True

/-- Nobody else writes `autoUpdateLastTag`. -/
def LeavesLastTag : Action → Prop
  | .write w => w.autoUpdateLastTag = none
  | _ => True

instance (s : State) : (a : Action) → Decidable (SlotFree s a)
  | .next false => inferInstanceAs (Decidable (s.phase.isQueueing = true → s.active = 0))
  | .next true | .write _ | .deployments _ => isTrue trivial

variable {newTag} {s s' : State} {a : Action}

/-! ## What one step of the call can do -/

inductive Goes (newTag : JsString) (s : State) : Bool → State → Prop where
  | throws (fails : Bool) : Goes newTag s fails { s with phase := .thrown }
  | givesUp (h : s.phase = .counting ∨ s.phase = .moving) :
      Goes newTag s false { s with phase := .returned none }
  | counted (h : s.phase = .counting) : Goes newTag s false { s with phase := .moving }
  | moved (oldRef : JsString) (h : s.phase = .moving) :
      Goes newTag s false
        { s with
          row := ⟨some (withTag oldRef newTag), none, some newTag⟩
          app := ⟨some (withTag oldRef newTag), none, some newTag⟩
          phase := .queueing oldRef s.app.imageDigest }
  | queued (revert : FollowRevert) (h : s.phase.isQueueing = true) :
      Goes newTag s false { s with active := s.active + 1, phase := .returned (some revert) }
  | loses (oldRef : JsString) (h : s.phase.isQueueing = true) (hactive : s.active ≠ 0) :
      Goes newTag s false { s with phase := .undoing oldRef true }
  | fails (oldRef : JsString) (h : s.phase.isQueueing = true) :
      Goes newTag s true { s with phase := .undoing oldRef false }
  | undone (oldRef : JsString) (conflict : Bool) (h : s.phase = .undoing oldRef conflict) :
      Goes newTag s false (undo newTag s oldRef conflict)

theorem goes_move (oldRef : JsString) (h : s.phase = .moving) :
    Goes newTag s false (move newTag s oldRef) := by
  unfold move
  split
  · exact .moved oldRef h
  · exact .givesUp (.inr h)

theorem goes_queue (oldRef : JsString) (oldDigest : Option JsString)
    (h : s.phase = .queueing oldRef oldDigest) :
    Goes newTag s false (queue newTag s oldRef oldDigest) := by
  have hqueueing : s.phase.isQueueing = true := by rw [h]; rfl
  unfold queue
  split
  · exact .loses oldRef hqueueing (by omega)
  · exact .queued _ hqueueing

variable {fails : Bool}

theorem goes_next (hstep : next newTag s fails = some s') : Goes newTag s fails s' := by
  unfold next at hstep
  cases hphase : s.phase <;> rw [hphase] at hstep <;> cases fails
  case counting.false =>
    obtain rfl := some.inj hstep
    by_cases hactive : s.active > 0
    · rw [if_pos hactive]
      exact .givesUp (.inl hphase)
    · rw [if_neg hactive]
      exact .counted hphase
  case moving.false =>
    obtain ⟨oldRef, -, rfl⟩ := map_eq_some_iff.mp hstep
    exact goes_move oldRef hphase
  case queueing.false oldRef oldDigest =>
    obtain rfl := some.inj hstep
    exact goes_queue oldRef oldDigest hphase
  case queueing.true oldRef oldDigest =>
    obtain rfl := some.inj hstep
    exact .fails oldRef (by rw [hphase]; rfl)
  case undoing.false oldRef conflict =>
    obtain rfl := some.inj hstep
    exact .undone oldRef conflict hphase
  all_goals first
    | exact some.inj hstep ▸ Goes.throws true
    | cases hstep

theorem Goes.untouched (h : Goes newTag s fails s') : s'.untouched = s.untouched := by
  cases h <;> rfl

/-! ## While the slot is free -/

/-- The row is what the others have made of it, except behind the write of the call. -/
def Inv (s : State) : Prop :=
  match s.phase with
  | .counting | .moving | .returned none => s.row = s.untouched
  | .undoing _ conflict => conflict = false
  | .queueing _ _ | .returned (some _) | .thrown => True

theorem inv_start (row app : Copy) (active : Nat) : Inv (start row app active) := rfl

theorem Inv.leftAlone (h : Inv s) : LeftAlone s := fun hphase => by
  rw [Inv, hphase] at h
  exact h

theorem Inv.write (h : Inv s) (w : Write) :
    Inv { s with row := w.apply s.row, untouched := w.apply s.untouched } := by
  unfold Inv at h ⊢
  dsimp only
  split <;> simp_all only

/-- **What a step of the call keeps**: with the slot free its deployment is queued. -/
theorem Inv.goes (h : Inv s) (hfree : SlotFree s (.next fails))
    (hgoes : Goes newTag s fails s') : Inv s' := by
  cases hgoes with
  | throws | moved | queued => exact trivial
  | fails => exact rfl
  | givesUp hphase =>
    show s.row = s.untouched
    rcases hphase with hphase | hphase <;> rw [Inv, hphase] at h <;> exact h
  | counted hphase =>
    rw [Inv, hphase] at h
    exact h
  | loses oldRef hqueueing hactive => exact absurd (hfree hqueueing) hactive
  | undone oldRef conflict hphase =>
    rw [Inv, hphase] at h
    obtain rfl : conflict = false := h
    exact trivial

theorem Inv.step (h : Inv s) (hfree : SlotFree s a) (hstep : step newTag s a = some s') :
    Inv s' := by
  cases a with
  | write w =>
    obtain rfl := some.inj hstep
    exact h.write w
  | deployments active =>
    obtain rfl := some.inj hstep
    exact h
  | next fails => exact h.goes hfree (goes_next hstep)

/-! ## When the slot is lost -/

/-- What the others leave alone, and what the call has written when it queues. -/
structure Remembering (newTag : JsString) (s : State) : Prop where
  inv : Inv s
  other : s.untouched.autoUpdateLastTag ≠ some newTag
  remembered : s.phase.isQueueing = true → s.row.autoUpdateLastTag = some newTag

/-- The call has lost the slot behind its write, and the row remembers the tag. -/
structure Lost (newTag : JsString) (s : State) : Prop where
  other : s.untouched.autoUpdateLastTag ≠ some newTag
  remembered : s.row.autoUpdateLastTag = some newTag
  ending : s.phase.isEnding = true

theorem Remembering.goes (h : Remembering newTag s) (hfree : SlotFree s (.next fails))
    (hgoes : Goes newTag s fails s') : Remembering newTag s' := by
  refine ⟨h.inv.goes hfree hgoes, hgoes.untouched ▸ h.other, fun hqueueing => ?_⟩
  cases hgoes with
  | moved => rfl
  | undone oldRef conflict => cases conflict <;> cases hqueueing
  | _ => cases hqueueing

theorem Remembering.step (h : Remembering newTag s) (hlast : LeavesLastTag a) (hfree : SlotFree s a)
    (hstep : FollowTag.step newTag s a = some s') : Remembering newTag s' := by
  cases a with
  | write w =>
    obtain rfl := some.inj hstep
    have hnone : w.autoUpdateLastTag = none := hlast
    exact ⟨h.inv.write w, by simpa [Write.apply, hnone] using h.other,
      by simpa [Write.apply, hnone] using h.remembered⟩
  | deployments active =>
    obtain rfl := some.inj hstep
    exact ⟨h.inv, h.other, h.remembered⟩
  | next fails => exact h.goes hfree (goes_next hstep)

/-- A step that misses the condition loses the slot. -/
theorem Remembering.lose (h : Remembering newTag s) (hlost : ¬ SlotFree s a)
    (hstep : FollowTag.step newTag s a = some s') : Lost newTag s' := by
  cases a with
  | write w => exact absurd trivial hlost
  | deployments active => exact absurd trivial hlost
  | next fails =>
    cases fails with
    | true => exact absurd trivial hlost
    | false =>
      obtain ⟨hqueueing, hactive⟩ := Classical.not_imp.mp hlost
      have htag := h.remembered hqueueing
      cases hphase : s.phase with
      | queueing oldRef oldDigest =>
        simp only [FollowTag.step, next, hphase, Bool.false_eq_true, if_false] at hstep
        obtain rfl := some.inj hstep
        rw [queue, if_pos (by omega)]
        exact ⟨h.other, htag, rfl⟩
      | _ => rw [hphase] at hqueueing; cases hqueueing

theorem Lost.goes (h : Lost newTag s) (hgoes : Goes newTag s fails s') : Lost newTag s' := by
  obtain ⟨hother, hremembered, hending⟩ := h
  have hnot : s.phase.isQueueing = false := by
    cases hphase : s.phase with
    | queueing oldRef oldDigest => rw [hphase] at hending; cases hending
    | _ => rfl
  cases hgoes with
  | throws => exact ⟨hother, hremembered, rfl⟩
  | undone oldRef conflict =>
    refine ⟨hother, ?_, by cases conflict <;> rfl⟩
    show (ite _ _ s.row).autoUpdateLastTag = _
    split <;> exact hremembered
  | givesUp hphase =>
    rcases hphase with hphase | hphase <;> rw [hphase] at hending <;> cases hending
  | counted hphase | moved _ hphase => rw [hphase] at hending; cases hending
  | queued _ hphase | loses _ hphase | fails _ hphase => rw [hnot] at hphase; cases hphase

theorem Lost.step (h : Lost newTag s) (hlast : LeavesLastTag a)
    (hstep : FollowTag.step newTag s a = some s') : Lost newTag s' := by
  cases a with
  | write w =>
    obtain rfl := some.inj hstep
    have hnone : w.autoUpdateLastTag = none := hlast
    exact ⟨by simpa [Write.apply, hnone] using h.other,
      by simpa [Write.apply, hnone] using h.remembered, h.ending⟩
  | deployments active =>
    obtain rfl := some.inj hstep
    exact ⟨h.other, h.remembered, h.ending⟩
  | next fails => exact h.goes (goes_next hstep)

theorem Lost.row_ne (h : Lost newTag s) : s.row ≠ s.untouched := fun heq =>
  h.other (heq ▸ h.remembered)

/-- A deployment begins behind the write of the call, before it queues its own. -/
def overtaken : List Action :=
  [.next false, .next false, .deployments 1, .next false, .next false]

/-- **When a call that returns `null` leaves the row to the others.**  In every run in which
no other deployment has taken the slot when the call queues its own, every column is what it was
or what another writer has set.  The condition is exact while nobody else writes
`autoUpdateLastTag` and the tag is not the one tried last, which the caller has checked. -/
theorem left_alone_of_slot_free (newTag : JsString) (row app : Copy) (active : Nat)
    (as : List Action) (s : State) (hrun : exec (step newTag) (start row app active) as = some s) :
    (Meets (step newTag) SlotFree (start row app active) as → LeftAlone s) ∧
    (Meets (step newTag) (fun _ a => LeavesLastTag a) (start row app active) as →
      row.autoUpdateLastTag ≠ some newTag → s.phase = .returned none →
      (s.row = s.untouched ↔ Meets (step newTag) SlotFree (start row app active) as)) := by
  have hkeep : Meets (step newTag) SlotFree (start row app active) as → LeftAlone s := fun hfree =>
    (exec_invariant (fun _ _ _ h hC hstep => Inv.step h hC hstep) as _ s (inv_start row app active)
      hfree hrun).leftAlone
  refine ⟨hkeep, fun hlast hother hnull => ⟨fun heq => ?_, fun hfree => hkeep hfree hnull⟩⟩
  have hstart : Remembering newTag (start row app active) :=
    ⟨inv_start row app active, hother, fun h => by cases h⟩
  rcases exec_meets_or (fun _ _ _ h hD hC hstep => Remembering.step h hD hC hstep)
    (fun _ _ _ h _ hC hstep => h.lose hC hstep) (fun _ _ _ h hD hstep => h.step hD hstep)
    as _ s hstart hlast hrun with ⟨hmeets, -⟩ | hlost
  · exact hmeets
  · exact absurd heq hlost.row_ne

def nginx : Copy := ⟨some (js "nginx:1.0.0"), some (js "sha256:aa"), none⟩

/-- The user sets another reference before the call writes its own. -/
def settingsChanged : List Action :=
  [.next false, .write ⟨some (some (js "nginx:2.0.0")), some none, none⟩, .next false]

theorem left_alone_of_slot_free_changed :
    ∃ s, exec (step (js "1.1.0")) (start nginx nginx 0) settingsChanged = some s ∧
      s.phase = .returned none ∧ s.row = s.untouched := by
  refine ⟨_, rfl, rfl, ?_⟩
  exact (left_alone_of_slot_free (js "1.1.0") nginx nginx 0 settingsChanged _ rfl).1 (by decide) rfl

/-- The tag is listed still, and would have been followed at the next tick. -/
theorem slot_lost :
    ∃ s, exec (step (js "1.1.0")) (start nginx nginx 0) overtaken = some s ∧ ¬ LeftAlone s ∧
      s.untouched.compatibleTag [js "1.0.0", js "1.1.0"] = some (js "1.1.0") ∧
      s.row.compatibleTag [js "1.0.0", js "1.1.0"] = none := by
  refine ⟨_, rfl, fun h => ?_, by decide, by decide⟩
  exact absurd (congrArg Copy.autoUpdateLastTag (h rfl)) (by decide)

/-! ## The call in a check -/

/-- The check as one action is the call met by nobody, or by one deployment that takes the
slot. -/
def alone (lost : Bool) : List Action :=
  if lost then overtaken else [.next false, .next false, .next false]

theorem followTag_eq (s : ImageUpdates.State) (c : Copy) (oldRef : JsString) (lost : Bool)
    (hc : c.imageRef = some oldRef) (hfree : s.active = []) (href : s.imageRef = some oldRef) :
    ∃ t, exec (step newTag) (start ⟨s.imageRef, s.imageDigest, s.autoUpdateLastTag⟩ c 0)
        (alone lost) = some t ∧
      t.row.imageRef = (followTag s c oldRef newTag lost).imageRef ∧
      t.row.imageDigest = (followTag s c oldRef newTag lost).imageDigest ∧
      t.row.autoUpdateLastTag = (followTag s c oldRef newTag lost).autoUpdateLastTag := by
  cases lost with
  | false =>
    simp [alone, exec, step, next, start, move, queue, followTag, hc, hfree, href]
  | true =>
    simp [alone, overtaken, exec, step, next, start, move, queue, undo, followTag, hc, hfree, href]

end FollowTag
end Aoox.ImageUpdates
