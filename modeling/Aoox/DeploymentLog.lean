import Aoox.DeploymentQueue

/-! # The log of a deployment

A running deployment has its log in three places.  What is emitted goes to the listeners and
to the live text of the process at once, and to a buffer; a flush moves the buffer to the
entity and saves it; and a save loads the row, compares it with the entity as it is then, and
writes the columns that differ.  Flushes are not awaited while a build reports progress, so
several saves may be on their way, and one that is overtaken may write an older text over a
newer one.

`Deployment.step` is one such deployment.  As long as no save takes text away from the row,
the live text is what was emitted until the end is announced, and the row holds all of it
from then on (`Kept`).
-/
open List Option
namespace Aoox.DeploymentLogs
open DeploymentStatus

/-- The columns of a row that a log writes. -/
structure Row where
  logs : JsString
  status : DeploymentStatus

/-- The columns a save writes. -/
structure Patch where
  logs : Option JsString
  status : Option DeploymentStatus

def diff (loaded entity : Row) : Patch where
  logs := if loaded.logs = entity.logs then none else some entity.logs
  status := if loaded.status = entity.status then none else some entity.status

def Patch.apply (p : Patch) (r : Row) : Row := ⟨p.logs.getD r.logs, p.status.getD r.status⟩

/-- How far a save is. -/
inductive Save where
  | requested
  | loaded (row : Row)
  | writing (patch : Patch)

inductive Stage where
  | running
  /-- The save of `finish` is on its way. -/
  | finishing
  | persisted
  /-- The last status was announced. -/
  | ended
  deriving DecidableEq

/-- A deployment: its row, the entity and the buffer of its log, the live text, everything that
was emitted, and the saves on their way, marked when they are those of `finish`. -/
structure Deployment where
  (row entity : Row)
  buffer : JsString
  live : Option JsString
  emitted : JsString
  saves : Nat → Option (Bool × Save)
  stage : Stage

def Deployment.queued : Deployment where
  row := ⟨[], .queued⟩
  entity := ⟨[], .queued⟩
  buffer := []
  live := none
  emitted := []
  saves := fun _ => none
  stage := .running

inductive LogAction where
  | emit (chunk : JsString)
  | setStatus (status : DeploymentStatus)
  | flush (k : Nat)
  | finish (status : DeploymentStatus) (k : Nat)
  | load (k : Nat)
  | compare (k : Nat)
  | land (k : Nat)
  /-- The status event behind the last save. -/
  | announce

/-- What the listeners are sent. -/
def LogAction.chunk : LogAction → JsString
  | emit chunk => chunk
  | _ => []

namespace Deployment

/-- The buffer moves to the entity and a save is requested. -/
def request (D : Deployment) (k : Nat) (final : Bool) : Deployment :=
  { D with
    entity := ⟨D.entity.logs ++ D.buffer, D.entity.status⟩
    buffer := []
    saves := Function.update D.saves k (some (final, .requested)) }

def step (D : Deployment) : LogAction → Option Deployment
  | .emit chunk =>
    if D.stage ≠ .running then none
    else if chunk = [] then some D
    else some { D with
      buffer := D.buffer ++ chunk, live := some (D.live.getD [] ++ chunk), emitted := D.emitted ++ chunk }
  | .setStatus status =>
    if D.stage ≠ .running ∨ status.inFlight = false then none
    else some { D with entity := ⟨D.entity.logs, status⟩ }
  | .flush k =>
    if D.stage ≠ .running ∨ (D.saves k).isSome then none else some (D.request k false)
  | .finish status k =>
    if D.stage ≠ .running ∨ status.inFlight ∨ (D.saves k).isSome then none
    else some { ({ D with entity := ⟨D.entity.logs, status⟩ } : Deployment).request k true with
      stage := .finishing }
  | .load k =>
    match D.saves k with
    | some (final, .requested) =>
      some { D with saves := Function.update D.saves k (some (final, .loaded D.row)) }
    | _ => none
  | .compare k =>
    match D.saves k with
    | some (final, .loaded row) =>
      -- with the entity as it is now, not as it was when the save was requested
      some { D with saves := Function.update D.saves k (some (final, .writing (diff row D.entity))) }
    | _ => none
  | .land k =>
    match D.saves k with
    | some (final, .writing patch) =>
      some { D with
        row := patch.apply D.row
        saves := Function.update D.saves k none
        stage := if final then .persisted else D.stage }
    | _ => none
  | .announce => if D.stage = .persisted then some { D with live := none, stage := .ended } else none

end Deployment

/-- A save that lands takes no text away from the row. -/
def Lengthens (row : Row) : Option (Bool × Save) → Prop
  | some (_, .writing patch) => ∀ text, patch.logs = some text → row.logs <+: text
  | some (_, .requested) | some (_, .loaded _) | none => True

instance (row : Row) : DecidablePred (Lengthens row)
  | some (_, .writing patch) =>
    inferInstanceAs (Decidable (∀ text, patch.logs = some text → row.logs <+: text))
  | some (_, .requested) | some (_, .loaded _) | none => isTrue trivial

def Forward (D : Deployment) : LogAction → Prop
  | .land k => Lengthens D.row (D.saves k)
  | _ => True

instance (D : Deployment) : DecidablePred (Forward D)
  | .land k => inferInstanceAs (Decidable (Lengthens D.row (D.saves k)))
  | .emit _ | .setStatus _ | .flush _ | .finish _ _ | .load _ | .compare _ | .announce => isTrue trivial

/-! ## The invariant -/

/-- A row with an end status has all of the text. -/
def Row.Final (r : Row) (D : Deployment) : Prop :=
  r.status.inFlight = false → D.stage ≠ .running ∧ r.logs = D.emitted

/-- The text of a deployment that does not run any more stays. -/
def Deployment.Onward (D D' : Deployment) : Prop :=
  (D.stage ≠ .running → D'.stage ≠ .running ∧ D'.emitted = D.emitted) ∧
    (D.stage = .ended → D'.stage = .ended)

/-- What a save on its way has seen. -/
def Save.Kept (D : Deployment) (final : Bool) : Save → Prop
  | .requested => True
  | .loaded row => row.logs <+: D.row.logs
  | .writing patch =>
    (∀ text, patch.logs = some text → text <+: D.entity.logs) ∧
      (final = true ∨ (∃ status, patch.status = some status ∧ status.inFlight = false) →
        D.stage ≠ .running ∧ (patch.logs = some D.emitted ∨ D.row.logs = D.emitted))

structure Kept (D : Deployment) : Prop where
  /-- Nothing that was emitted is lost in the process. -/
  text : D.entity.logs ++ D.buffer = D.emitted
  flushed : D.stage ≠ .running → D.buffer = []
  status : D.entity.status.inFlight = false → D.stage ≠ .running
  live : ∀ text, D.live = some text → text = D.emitted
  dark : D.live = none → D.stage = .ended ∨ D.emitted = []
  stored : D.row.logs <+: D.entity.logs
  complete : D.row.Final D
  saves : ∀ k final save, D.saves k = some (final, save) → save.Kept D final
  last : ∀ k save, D.saves k = some (true, save) → D.stage = .finishing
  once : ∀ k l save save', D.saves k = some (true, save) → D.saves l = some (true, save') → k = l
  persisted : D.stage = .persisted ∨ D.stage = .ended → D.row.logs = D.emitted

variable {D D' : Deployment} {a : LogAction}

theorem kept_queued : Kept Deployment.queued where
  text := rfl
  flushed _ := rfl
  status h := by cases h
  live text h := by cases h
  dark _ := Or.inr rfl
  stored := nil_prefix
  complete h := by cases h
  saves k final save h := by cases h
  last k save h := by cases h
  once k l save save' h := by cases h
  persisted h := by rcases h with h | h <;> cases h

theorem Kept.entity (h : Kept D) (hstage : D.stage ≠ .running) : D.entity.logs = D.emitted := by
  have htext := h.text
  rwa [h.flushed hstage, append_nil] at htext

/-- **What a step emits.** -/
theorem Kept.emitted (hkept : Kept D) (h : D.step a = some D') : D'.emitted = D.emitted ++ a.chunk ∧
    (D.stage ≠ .running → a.chunk = [] ∧ D'.stage ≠ .running) ∧
      (D.stage = .ended → D'.stage = .ended) := by
  cases a with
  | emit chunk =>
    simp only [Deployment.step] at h
    split at h
    · cases h
    · rename_i hrunning
      have hstage : D.stage = .running := not_not.mp hrunning
      split at h
      · rename_i hempty
        cases h
        subst hempty
        exact ⟨(append_nil _).symm, fun hne => ⟨rfl, hne⟩, id⟩
      · cases h
        exact ⟨rfl, fun hne => absurd hstage hne, fun he => by rw [hstage] at he; cases he⟩
  | setStatus status =>
    simp only [Deployment.step] at h
    split at h
    · cases h
    · cases h
      exact ⟨(append_nil _).symm, fun hne => ⟨rfl, hne⟩, id⟩
  | flush k =>
    simp only [Deployment.step] at h
    split at h
    · cases h
    · cases h
      exact ⟨(append_nil _).symm, fun hne => ⟨rfl, hne⟩, id⟩
  | finish status k =>
    simp only [Deployment.step] at h
    split at h
    · cases h
    · rename_i hguard
      cases h
      have hstage : D.stage = .running := not_not.mp (not_or.mp hguard).1
      refine ⟨(append_nil _).symm, fun _ => ⟨rfl, fun he => by cases he⟩, ?_⟩
      intro he
      rw [hstage] at he
      cases he
  | load k =>
    simp only [Deployment.step] at h
    split at h
    · cases h
      exact ⟨(append_nil _).symm, fun hne => ⟨rfl, hne⟩, id⟩
    · cases h
  | compare k =>
    simp only [Deployment.step] at h
    split at h
    · cases h
      exact ⟨(append_nil _).symm, fun hne => ⟨rfl, hne⟩, id⟩
    · cases h
  | land k =>
    simp only [Deployment.step] at h
    split at h
    · rename_i final patch hk
      cases h
      cases final with
      | false => exact ⟨(append_nil _).symm, fun hne => ⟨rfl, hne⟩, id⟩
      | true =>
        refine ⟨(append_nil _).symm, fun _ => ⟨rfl, fun he => by cases he⟩, ?_⟩
        intro he
        rw [hkept.last k _ hk] at he
        cases he
    · cases h
  | announce =>
    simp only [Deployment.step] at h
    split at h
    · cases h
      exact ⟨(append_nil _).symm, fun _ => ⟨rfl, fun he => by cases he⟩, fun _ => rfl⟩
    · cases h

/-- Nothing of the end is there while the deployment runs. -/
theorem Kept.running (h : Kept D) (hrunning : D.stage = .running) :
    D.row.status.inFlight = true ∧ (∀ k save, D.saves k ≠ some (true, save)) ∧
      ∀ k final patch status, D.saves k = some (final, .writing patch) → patch.status = some status →
        status.inFlight = true := by
  refine ⟨?_, ?_, ?_⟩
  · by_contra hterminal
    exact (h.complete (by simpa using hterminal)).1 hrunning
  · intro k save hk
    have hfinishing := h.last k save hk
    rw [hrunning] at hfinishing
    cases hfinishing
  · intro k final patch status hk hstatus
    by_contra hterminal
    exact ((h.saves k final _ hk).2 (Or.inr ⟨status, hstatus, by simpa using hterminal⟩)).1 hrunning

variable {k : Nat} {final : Bool}

/-- What the saves have seen stands while a deployment runs on. -/
theorem Kept.saves_grow (h : Kept D) (hrunning : D.stage = .running) (hrow : D'.row = D.row)
    (hentity : D.entity.logs <+: D'.entity.logs) {save : Save}
    (hk : D.saves k = some (final, save)) : save.Kept D' final := by
  have hkept := h.saves k final save hk
  obtain ⟨-, hfinal, hterminal⟩ := h.running hrunning
  cases save with
  | requested => trivial
  | loaded row =>
    simp only [Save.Kept, hrow]
    exact hkept
  | writing patch =>
    refine ⟨fun text htext => (hkept.1 text htext).trans hentity, ?_⟩
    rintro (rfl | ⟨status, hstatus, hlast⟩)
    · exact absurd hk (hfinal k _)
    · rw [hterminal k final patch status hk hstatus] at hlast
      cases hlast

theorem Kept.emit (h : Kept D) (hrunning : D.stage = .running) (chunk : JsString) : Kept { D with
      buffer := D.buffer ++ chunk, live := some (D.live.getD [] ++ chunk), emitted := D.emitted ++ chunk } where
  text := by rw [← h.text, append_assoc]
  flushed hne := absurd hrunning hne
  status := h.status
  live text htext := by
    obtain rfl := some.inj htext
    cases hlive : D.live with
    | some live => rw [getD_some, h.live live hlive]
    | none =>
      rcases h.dark hlive with hended | hempty
      · rw [hrunning] at hended
        cases hended
      · rw [hempty]
        rfl
  dark hnone := by cases hnone
  stored := h.stored
  complete hterminal := absurd hrunning (h.complete hterminal).1
  saves k final save hk := by
    refine h.saves_grow hrunning ?_ ?_ hk
    · rfl
    · exact prefix_refl _
  last := h.last
  once := h.once
  persisted hpersisted := by rcases hpersisted with he | he <;> (rw [hrunning] at he; cases he)

theorem Kept.setStatus (h : Kept D) (hrunning : D.stage = .running) {status : DeploymentStatus}
    (hstatus : status.inFlight = true) : Kept { D with entity := ⟨D.entity.logs, status⟩ } where
  text := h.text
  flushed hne := absurd hrunning hne
  status hterminal := by
    rw [hstatus] at hterminal
    cases hterminal
  live := h.live
  dark := h.dark
  stored := h.stored
  complete := h.complete
  saves k final save hk := by
    refine h.saves_grow hrunning ?_ ?_ hk
    · rfl
    · exact prefix_refl _
  last := h.last
  once := h.once
  persisted := h.persisted

/-- **A flush**, which may be the one of `finish`. -/
theorem Kept.request (h : Kept D) (hrunning : D.stage = .running) (status : DeploymentStatus) (k : Nat)
    (final : Bool) (hstatus : status.inFlight = !final) :
    Kept { ({ D with entity := ⟨D.entity.logs, status⟩ } : Deployment).request k final with
      stage := if final then .finishing else D.stage } where
  text := by rw [← h.text]; exact append_nil _
  flushed _ := rfl
  status hterminal := by
    cases final with
    | true => exact fun he => by cases he
    | false =>
      simp only [Deployment.request] at hterminal
      rw [hstatus] at hterminal
      cases hterminal
  live := h.live
  dark hnone := by
    rcases h.dark hnone with he | he
    · rw [hrunning] at he
      cases he
    · exact Or.inr he
  stored := h.stored.trans (prefix_append _ _)
  complete hterminal := absurd hrunning (h.complete hterminal).1
  saves l final' save hl := by
    rcases Runs.update_eq_some hl with ⟨-, hnew⟩ | ⟨-, hold⟩
    · cases hnew
      trivial
    · refine h.saves_grow hrunning ?_ ?_ hold
      · rfl
      · exact prefix_append _ _
  last l save hl := by
    rcases Runs.update_eq_some hl with ⟨-, hnew⟩ | ⟨-, hold⟩
    · cases hnew
      rfl
    · exact absurd hold ((h.running hrunning).2.1 l save)
  once l m save save' hl hm := by
    rcases Runs.update_eq_some hl with ⟨rfl, -⟩ | ⟨-, hold⟩
    · rcases Runs.update_eq_some hm with ⟨rfl, -⟩ | ⟨-, hold⟩
      · rfl
      · exact absurd hold ((h.running hrunning).2.1 m save')
    · exact absurd hold ((h.running hrunning).2.1 l save)
  persisted hpersisted := by
    cases final <;> rcases hpersisted with he | he <;> simp [hrunning] at he

/-- A save goes on: it has loaded the row, or compared it. -/
theorem Kept.progress (h : Kept D) {save save' : Save} (hk : D.saves k = some (final, save))
    (hsave : save'.Kept D final) :
    Kept { D with saves := Function.update D.saves k (some (final, save')) } where
  text := h.text
  flushed := h.flushed
  status := h.status
  live := h.live
  dark := h.dark
  stored := h.stored
  complete := h.complete
  saves l final' save'' hl := by
    rcases Runs.update_eq_some hl with ⟨-, hnew⟩ | ⟨-, hold⟩
    · cases hnew
      cases save' <;> exact hsave
    · have hkept := h.saves l final' save'' hold
      cases save'' <;> exact hkept
  last l save'' hl := by
    rcases Runs.update_eq_some hl with ⟨-, hnew⟩ | ⟨-, hold⟩
    · cases hnew
      exact h.last k save hk
    · exact h.last l save'' hold
  once l m s₁ s₂ hl hm := by
    rcases Runs.update_eq_some hl with ⟨rfl, hnew⟩ | ⟨-, hold⟩
    · cases hnew
      rcases Runs.update_eq_some hm with ⟨rfl, -⟩ | ⟨-, hold'⟩
      · rfl
      · exact h.once l m save s₂ hk hold'
    · rcases Runs.update_eq_some hm with ⟨rfl, hnew⟩ | ⟨-, hold'⟩
      · cases hnew
        exact h.once l m s₁ save hold hk
      · exact h.once l m s₁ s₂ hold hold'
  persisted := h.persisted

/-- **The comparison** of a save that was made when the log was finished writes all of it, or
finds it there. -/
theorem Kept.compare (h : Kept D) {row : Row} (hk : D.saves k = some (final, .loaded row)) :
    (Save.writing (diff row D.entity)).Kept D final := by
  have hloaded : row.logs <+: D.row.logs := h.saves k final _ hk
  refine ⟨?_, ?_⟩
  · intro text htext
    simp only [diff] at htext
    split at htext
    · cases htext
    · cases htext
      exact prefix_refl _
  · intro hlast
    have hstage : D.stage ≠ .running := by
      rcases hlast with rfl | ⟨status, hstatus, hterminal⟩
      · rw [h.last k _ hk]
        exact fun he => by cases he
      · simp only [diff] at hstatus
        split at hstatus
        · cases hstatus
        · obtain rfl := some.inj hstatus
          exact h.status hterminal
    refine ⟨hstage, ?_⟩
    simp only [diff]
    split
    · rename_i hsame
      right
      rw [hsame] at hloaded
      rw [← h.entity hstage]
      exact infix_antisymm h.stored.isInfix hloaded.isInfix
    · left
      rw [h.entity hstage]

variable {patch : Patch}

/-- What a save leaves in the row is between what was there and what the entity has. -/
theorem Kept.landed (h : Kept D) (hk : D.saves k = some (final, .writing patch))
    (hforward : ∀ text, patch.logs = some text → D.row.logs <+: text) :
    D.row.logs <+: (patch.apply D.row).logs ∧ (patch.apply D.row).logs <+: D.entity.logs := by
  obtain ⟨hshorter, -⟩ := h.saves k final _ hk
  unfold Patch.apply
  cases hlogs : patch.logs with
  | none => exact ⟨prefix_refl _, h.stored⟩
  | some text => exact ⟨hforward text hlogs, hshorter text hlogs⟩

/-- A row that has all of the text keeps it. -/
theorem Kept.landed_full (h : Kept D) (hk : D.saves k = some (final, .writing patch))
    (hforward : ∀ text, patch.logs = some text → D.row.logs <+: text) (hstage : D.stage ≠ .running)
    (hfull : D.row.logs = D.emitted) : (patch.apply D.row).logs = D.emitted := by
  obtain ⟨hgrown, hstored⟩ := h.landed hk hforward
  rw [hfull] at hgrown
  rw [h.entity hstage] at hstored
  exact infix_antisymm hstored.isInfix hgrown.isInfix

/-- The save of `finish`, and any that writes an end status, leaves all of the text in the row. -/
theorem Kept.landed_last (h : Kept D) (hk : D.saves k = some (final, .writing patch))
    (hforward : ∀ text, patch.logs = some text → D.row.logs <+: text)
    (hlast : final = true ∨ ∃ status, patch.status = some status ∧ status.inFlight = false) :
    D.stage ≠ .running ∧ (patch.apply D.row).logs = D.emitted := by
  obtain ⟨-, hwritten⟩ := h.saves k final _ hk
  obtain ⟨hstage, hwrites | hthere⟩ := hwritten hlast
  · exact ⟨hstage, by simp [Patch.apply, hwrites]⟩
  · exact ⟨hstage, h.landed_full hk hforward hstage hthere⟩

theorem Kept.landed_final (h : Kept D) (hk : D.saves k = some (final, .writing patch))
    (hforward : ∀ text, patch.logs = some text → D.row.logs <+: text) :
    (patch.apply D.row).Final D := by
  intro hterminal
  cases hstatus : patch.status with
  | some status =>
    refine h.landed_last hk hforward (Or.inr ⟨status, hstatus, ?_⟩)
    simpa [Patch.apply, hstatus] using hterminal
  | none =>
    obtain ⟨hstage, hfull⟩ := h.complete (by simpa [Patch.apply, hstatus] using hterminal)
    exact ⟨hstage, h.landed_full hk hforward hstage hfull⟩

/-- **A save lands.** -/
theorem Kept.land (h : Kept D) (hk : D.saves k = some (final, .writing patch))
    (hforward : ∀ text, patch.logs = some text → D.row.logs <+: text) :
    Kept { D with
      row := patch.apply D.row
      saves := Function.update D.saves k none
      stage := if final then .persisted else D.stage } := by
  obtain ⟨hgrown, hstored⟩ := h.landed hk hforward
  have hrunning : (if final then Stage.persisted else D.stage) = .running → D.stage = .running := by
    cases final <;> simp
  constructor
  · exact h.text
  · intro hstage
    by_cases hr : D.stage = .running
    · cases final with
      | true => exact absurd hr (h.landed_last hk hforward (Or.inl rfl)).1
      | false => exact absurd hr hstage
    · exact h.flushed hr
  · exact fun hterminal he => h.status hterminal (hrunning he)
  · exact h.live
  · intro hnone
    rcases h.dark hnone with he | he
    · cases final with
      | true =>
        rw [h.last k _ hk] at he
        cases he
      | false => exact Or.inl he
    · exact Or.inr he
  · exact hstored
  · intro hterminal
    obtain ⟨hstage, hfull⟩ := h.landed_final hk hforward hterminal
    exact ⟨fun he => hstage (hrunning he), hfull⟩
  · intro l final' save hl
    rcases Runs.update_eq_some hl with ⟨-, hnew⟩ | ⟨-, hold⟩
    · cases hnew
    · have hkept := h.saves l final' save hold
      cases save with
      | requested => trivial
      | loaded row => exact IsPrefix.trans hkept hgrown
      | writing patch' =>
        refine ⟨hkept.1, ?_⟩
        intro hlast
        obtain ⟨hstage, hwrites | hthere⟩ := hkept.2 hlast
        · exact ⟨fun he => hstage (hrunning he), Or.inl hwrites⟩
        · exact ⟨fun he => hstage (hrunning he), Or.inr (h.landed_full hk hforward hstage hthere)⟩
  · intro l save hl
    rcases Runs.update_eq_some hl with ⟨-, hnew⟩ | ⟨hne, hold⟩
    · cases hnew
    · cases final with
      -- the save that landed was the only one of `finish`
      | true => exact absurd (h.once l k _ _ hold hk) hne
      | false => exact h.last l save hold
  · intro l m s₁ s₂ hl hm
    rcases Runs.update_eq_some hl with ⟨-, hnew⟩ | ⟨-, hold⟩
    · cases hnew
    · rcases Runs.update_eq_some hm with ⟨-, hnew⟩ | ⟨-, hold'⟩
      · cases hnew
      · exact h.once l m s₁ s₂ hold hold'
  · intro hpersisted
    cases final with
    | true => exact (h.landed_last hk hforward (Or.inl rfl)).2
    | false =>
      refine h.landed_full hk hforward ?_ (h.persisted hpersisted)
      intro hr
      simp only [Bool.false_eq_true, if_false, hr] at hpersisted
      rcases hpersisted with he | he <;> cases he

/-- **The end is announced.** -/
theorem Kept.announce (h : Kept D) (hpersisted : D.stage = .persisted) :
    Kept { D with live := none, stage := .ended } := by
  have hrunning : D.stage ≠ .running := by
    rw [hpersisted]
    exact fun he => by cases he
  have hfinal : ∀ k save, D.saves k ≠ some (true, save) := by
    intro k save hk
    have hfinishing := h.last k save hk
    rw [hpersisted] at hfinishing
    cases hfinishing
  constructor
  · exact h.text
  · exact fun _ => h.flushed hrunning
  · exact fun _ he => by cases he
  · exact fun text htext => by cases htext
  · exact fun _ => Or.inl rfl
  · exact h.stored
  · exact fun hterminal => ⟨fun he => by (cases he), (h.complete hterminal).2⟩
  · intro k final save hk
    have hkept := h.saves k final save hk
    cases save with
    | requested => trivial
    | loaded row => exact hkept
    | writing patch =>
      refine ⟨hkept.1, ?_⟩
      intro hc
      exact ⟨fun he => by (cases he), (hkept.2 hc).2⟩
  · exact fun k save hk => absurd hk (hfinal k save)
  · exact h.once
  · exact fun _ => h.persisted (Or.inl hpersisted)

/-- **One step of the log.** -/
theorem Kept.step (h : Kept D) (ha : Forward D a) (hstep : D.step a = some D') : Kept D' := by
  cases a with
  | emit chunk =>
    simp only [Deployment.step] at hstep
    split at hstep
    · cases hstep
    · rename_i hrunning
      split at hstep
      · cases hstep
        exact h
      · cases hstep
        exact h.emit (not_not.mp hrunning) chunk
  | setStatus status =>
    simp only [Deployment.step] at hstep
    split at hstep
    · cases hstep
    · rename_i hguard
      cases hstep
      obtain ⟨hrunning, hstatus⟩ := not_or.mp hguard
      exact h.setStatus (not_not.mp hrunning) (by simpa using hstatus)
  | flush k =>
    simp only [Deployment.step] at hstep
    split at hstep
    · cases hstep
    · rename_i hguard
      cases hstep
      have hrunning := not_not.mp (not_or.mp hguard).1
      have hstatus : D.entity.status.inFlight = true := by
        by_contra hterminal
        exact h.status (by simpa using hterminal) hrunning
      exact h.request hrunning D.entity.status k false hstatus
  | finish status k =>
    simp only [Deployment.step] at hstep
    split at hstep
    · cases hstep
    · rename_i hguard
      cases hstep
      obtain ⟨hrunning, hrest⟩ := not_or.mp hguard
      have hstatus := (not_or.mp hrest).1
      exact h.request (not_not.mp hrunning) status k true (by simpa using hstatus)
  | load k =>
    simp only [Deployment.step] at hstep
    split at hstep
    · rename_i final hk
      cases hstep
      exact h.progress hk (prefix_refl _)
    · cases hstep
  | compare k =>
    simp only [Deployment.step] at hstep
    split at hstep
    · rename_i final row hk
      cases hstep
      exact h.progress hk (h.compare hk)
    · cases hstep
  | land k =>
    simp only [Deployment.step] at hstep
    split at hstep
    · rename_i final patch hk
      cases hstep
      simp only [Forward, hk] at ha
      exact h.land hk ha
    · cases hstep
  | announce =>
    simp only [Deployment.step] at hstep
    split at hstep
    · rename_i hpersisted
      cases hstep
      exact h.announce hpersisted
    · cases hstep

end Aoox.DeploymentLogs
