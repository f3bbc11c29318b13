import Aoox.Runs
import Aoox.Scripts

/-! # Database companions and their removal

The admin app of a database is provisioned in the background: `create` saves a row and
returns, and then the image is pulled, the network made sure of, an old container removed,
the new one created and started, and at last the row is updated.  The removal loads the row,
looks for the container, removes what it has found and deletes the row.  It does not wait
for a provisioning and no provisioning looks at the row again, so what is created after the
look is never removed.

Any number of requests create, provision and remove companions of one database, call by
call.  When no provisioning creates the container of a companion that a removal has looked
for already, nothing is left of what was removed (`companions_gone`).
-/
namespace Aoox.CompanionRemoval
open Scripts Option

/-! ## The calls -/

/-- A container under the name of the database's companion. -/
structure Container where
  id : Nat
  /-- The row it was provisioned for. -/
  companion : Nat

/-- The daemon and the table, for one database.  The name is free for one container and the
unique index for one row. -/
structure World where
  row : Option Nat
  nextRow : Nat
  container : Option Container
  nextId : Nat
  (image network proxy : Bool)
  /-- Some domain or other companion has the host. -/
  hostTaken : Bool
  known : ∀ id, row = some id → id < nextRow

def World.saveRow (w : World) : World :=
  { w with
    row := some w.nextRow
    nextRow := w.nextRow + 1
    known := fun _ h => Option.some.inj h ▸ Nat.lt_succ_self _ }

def World.deleteRow (w : World) (id : Nat) : World :=
  { w with
    row := if w.row = some id then none else w.row
    known := by
      intro id' h
      split at h
      · cases h
      · exact w.known id' h }

inductive Call where
  | hasRow
  | hostTaken
  | proxyRunning
  | provisionProxy
  | save
  | hasImage
  | pullImage
  | hasNetwork
  | createNetwork
  | find
  | remove (id : Nat)
  | create (companion : Nat)
  | update (row : Nat)
  /-- Any call that does not change what exists. -/
  | other

def Call.Reply : Call → Type
  | hasRow | hostTaken | proxyRunning | hasImage | hasNetwork => Bool
  | save | create _ => Nat
  | find => Option Nat
  | provisionProxy | pullImage | createNetwork | remove _ | update _ | other => Unit

/-- What a call does.  An update of a row that is gone changes nothing. -/
def effect : (c : Call) → World → Option (c.Reply × World)
  | .hasRow, w => some (w.row.isSome, w)
  | .hostTaken, w => some (w.hostTaken, w)
  | .proxyRunning, w => some (w.proxy, w)
  | .provisionProxy, w => some ((), { w with proxy := true })
  | .save, w =>
    if w.row.isSome then none
    else some (w.nextRow, w.saveRow)
  | .hasImage, w => some (w.image, w)
  | .pullImage, w => some ((), { w with image := true })
  | .hasNetwork, w => some (w.network, w)
  | .createNetwork, w => some ((), { w with network := true })
  | .find, w => some (w.container.map Container.id, w)
  | .remove id, w =>
    if w.container.any fun c => c.id = id then some ((), { w with container := none }) else none
  | .create companion, w =>
    if w.container.isSome then none
    else some (w.nextId, { w with container := some ⟨w.nextId, companion⟩, nextId := w.nextId + 1 })
  | .update _, w => some ((), w)
  | .other, w => some ((), w)

def calls : System World := ⟨Call, Call.Reply, effect⟩

abbrev Task := Script calls

def await (c : Call) : Task c.Reply := Script.await (S := calls) c

/-! ## Creating and provisioning -/

/-- `if (!(await check)) await make`. -/
def ensure (check : Task Bool) (make : Task Unit) : Task Unit := do
  if ← check then pure () else make

def ensureImage : Task Unit := ensure (await .hasImage) (await .pullImage)

def ensureNetwork : Task Unit := ensure (await .hasNetwork) (await .createNetwork)

def putArchives : Nat → Task Unit
  | 0 => pure ()
  | files + 1 => do
    await .other
    putArchives files

/-- `provision`, of a tool that wants `files` preloaded. -/
def provision (row files : Nat) : Task Unit := do
  await .other -- `databases.password`
  ensureImage
  ensureNetwork
  match ← (await .find : Task (Option Nat)) with
  | some id => await (.remove id)
  | none => pure ()
  let _ ← await (.create row)
  putArchives files
  await .other -- `startContainer`

def provisionInBackground (row files : Nat) : Task Unit :=
  Script.attempt (do
      provision row files
      await (.update row)) -- `running`
    (Script.swallow (await (.update row))) -- `error`

/-- What `create` looks at of the request and of the database. -/
structure Request where
  /-- The tool is known and supports the engine. -/
  (supported host hostPort databaseRunning : Bool)
  files : Nat

/-- `if (await check) throw`. -/
def refuseIf (check : Task Bool) : Task Unit := do
  if ← check then .thrown else pure ()

/-- `create`; what it starts in the background goes on as the same program. -/
def create (dto : Request) : Task Unit := do
  (if !dto.supported then .thrown else pure () : Task Unit)
  (if !dto.host && !dto.hostPort then .thrown else pure () : Task Unit)
  (if !dto.databaseRunning then .thrown else pure () : Task Unit)
  refuseIf (await .hasRow)
  (if dto.host then refuseIf (await .hostTaken) else pure () : Task Unit)
  (if dto.hostPort then await .other else pure () : Task Unit) -- `assertFree`
  (if dto.host then ensure (await .proxyRunning) (await .provisionProxy) else pure () : Task Unit)
  let row ← (await .save : Task Nat)
  provisionInBackground row dto.files

/-! ## Removing -/

/-- How far a removal is. -/
inductive Removal where
  | loading
  | finding (row : Nat)
  | removing (row id : Nat)
  | deleting (row : Nat)
  | returned (row : Nat)
  | threw

/-- The next call of `remove`. -/
def removeStep (o : Outcome) (w : World) : Removal → Option (World × Removal)
  | .returned _ | .threw => none
  | .loading =>
    if o ≠ .ok then some (w, .threw)
    else
      match w.row with
      | none => some (w, .threw) -- `NotFoundException`
      | some row => some (w, .finding row)
  | .finding row =>
    if o ≠ .ok then some (w, .threw)
    else
      match w.container with
      | none => some (w, .deleting row)
      | some c => some (w, .removing row c.id)
  | .removing row id =>
    match effect (.remove id) w with
    | none => some (w, .threw)
    | some (_, w') =>
      match o with
      | .ok => some (w', .deleting row)
      | .failed => some (w, .threw)
      | .lost => some (w', .threw)
  | .deleting row =>
    match o with
    | .ok => some (w.deleteRow row, .returned row)
    | .failed => some (w, .threw)
    | .lost => some (w.deleteRow row, .threw)

structure State where
  world : World
  tasks : Nat → Option (Task Unit)
  removals : Nat → Option Removal

inductive Action where
  /-- A request creates a companion. -/
  | create (p : Nat) (dto : Request)
  /-- The companion that is there is provisioned once more. -/
  | reprovision (p files : Nat)
  | call (p : Nat) (o : Outcome)
  /-- A request removes the companion. -/
  | remove (n : Nat)
  | removal (n : Nat) (o : Outcome)

def State.begin (s : State) (p : Nat) (x : Task Unit) : Option State :=
  if (s.tasks p).isSome then none else some { s with tasks := Function.update s.tasks p (some x) }

def step (s : State) : Action → Option State
  | .create p dto => s.begin p (create dto)
  | .reprovision p files => s.world.row.bind fun row => s.begin p (provisionInBackground row files)
  | .call p o =>
    (s.tasks p).bind fun x =>
      (x.advance o s.world).map fun (x', w') =>
        { s with world := w', tasks := Function.update s.tasks p (some x') }
  | .remove n =>
    if (s.removals n).isSome then none
    else some { s with removals := Function.update s.removals n (some .loading) }
  | .removal n o =>
    (s.removals n).bind fun r =>
      (removeStep o s.world r).map fun (w', r') =>
        { s with world := w', removals := Function.update s.removals n (some r') }

/-- Once a removal has returned and the provisionings have ended, there is no container of the
companion and no row. -/
def Gone (s : State) : Prop :=
  ∀ n row, s.removals n = some (.returned row) → (∀ p x, s.tasks p = some x → x.next = none) →
    s.world.row ≠ some row ∧ ∀ c, s.world.container = some c → c.companion ≠ row

/-- The removal has looked for the container of a companion and has not failed. -/
def Removal.Looked (companion : Nat) : Removal → Prop
  | removing row _ | deleting row | returned row => row = companion
  | loading | finding _ | threw => False

/-- No provisioning creates the container of a companion that a removal has looked for. -/
def InTime (s : State) : Action → Prop
  | .call p o => o ≠ .failed → ∀ x companion, s.tasks p = some x →
      x.next = some (.create companion) → ∀ n r, s.removals n = some r → ¬ r.Looked companion
  | _ => True

/-! ## The invariant -/

/-- What a removal has seen to so far. -/
def Removal.Settled (w : World) : Removal → Prop
  | loading | threw => True
  | finding row => row < w.nextRow
  | removing row id => row < w.nextRow ∧ ∀ c, w.container = some c → c.companion = row → c.id = id
  | deleting row => row < w.nextRow ∧ ∀ c, w.container = some c → c.companion ≠ row
  | returned row => row < w.nextRow ∧ w.row ≠ some row ∧
      ∀ c, w.container = some c → c.companion ≠ row

def Inv (s : State) : Prop := ∀ n r, s.removals n = some r → r.Settled s.world

variable {s s' : State} {w w' : World}

variable {c : Call}

/-- **What a call does to what exists.** -/
theorem effect_exists {r : c.Reply} (h : effect c w = some (r, w')) :
    (w'.container = w.container ∨ w'.container = none ∨
        ∃ companion, c = .create companion ∧ w'.container = some ⟨w.nextId, companion⟩) ∧
      ((w'.row = w.row ∧ w'.nextRow = w.nextRow) ∨
        (w'.row = some w.nextRow ∧ w'.nextRow = w.nextRow + 1)) := by
  cases c with
  | save =>
    simp only [effect] at h
    split at h
    · cases h
    · cases h
      exact ⟨Or.inl rfl, Or.inr ⟨rfl, rfl⟩⟩
  | create companion =>
    simp only [effect] at h
    split at h
    · cases h
    · cases h
      exact ⟨Or.inr (Or.inr ⟨companion, rfl, rfl⟩), Or.inl ⟨rfl, rfl⟩⟩
  | remove id =>
    simp only [effect] at h
    split at h
    · cases h
      exact ⟨Or.inr (Or.inl rfl), Or.inl ⟨rfl, rfl⟩⟩
    · cases h
  | hasRow | hostTaken | proxyRunning | provisionProxy | hasImage | pullImage | hasNetwork
  | createNetwork | find | update | other =>
    cases h
    exact ⟨Or.inl rfl, Or.inl ⟨rfl, rfl⟩⟩

variable {r : Removal}

/-- What a removal has seen to stays so under any call but the creation of what it has looked
for. -/
theorem Removal.Settled.call {reply : c.Reply} (hr : r.Settled w)
    (h : effect c w = some (reply, w'))
    (hlooked : ∀ companion, c = .create companion → ¬ r.Looked companion) : r.Settled w' := by
  obtain ⟨hcontainer, hrow⟩ := effect_exists h
  have hbound : ∀ row, row < w.nextRow → row < w'.nextRow := by
    intro row hlt
    rcases hrow with ⟨-, hnext⟩ | ⟨-, hnext⟩ <;> omega
  -- a container that was not there is not of a companion that was looked for
  have hold : ∀ c', w'.container = some c' → r.Looked c'.companion → w.container = some c' := by
    intro c' hc' hl
    rcases hcontainer with hsame | hnone | ⟨companion, hc, hnew⟩
    · rwa [← hsame]
    · rw [hnone] at hc'
      cases hc'
    · obtain rfl := some.inj (hnew.symm.trans hc')
      exact absurd hl (hlooked companion hc)
  cases r with
  | loading | threw => trivial
  | finding row => exact hbound row hr
  | removing row id =>
    refine ⟨hbound row hr.1, ?_⟩
    intro c' hc' hcomp
    exact hr.2 c' (hold c' hc' hcomp.symm) hcomp
  | deleting row =>
    refine ⟨hbound row hr.1, ?_⟩
    intro c' hc' hcomp
    exact hr.2 c' (hold c' hc' hcomp.symm) hcomp
  | returned row =>
    refine ⟨hbound row hr.1, ?_, ?_⟩
    · rcases hrow with ⟨hsame, -⟩ | ⟨hnew, -⟩
      · rw [hsame]
        exact hr.2.1
      · rw [hnew]
        intro heq
        have hlt := hr.1
        have hval := some.inj heq
        omega
    · intro c' hc' hcomp
      exact hr.2.2 c' (hold c' hc' hcomp.symm) hcomp

variable {r' : Removal} {o : Outcome}

/-- **What a removal does to what exists.** -/
theorem removeStep_exists (h : removeStep o w r = some (w', r')) :
    (w'.container = w.container ∨ w'.container = none) ∧ (w'.row = w.row ∨ w'.row = none) ∧
      w'.nextRow = w.nextRow := by
  cases r with
  | returned row => cases h
  | threw => cases h
  | loading =>
    simp only [removeStep] at h
    split at h
    · cases h
      exact ⟨Or.inl rfl, Or.inl rfl, rfl⟩
    · split at h
      all_goals
        cases h
        exact ⟨Or.inl rfl, Or.inl rfl, rfl⟩
  | finding row =>
    simp only [removeStep] at h
    split at h
    · cases h
      exact ⟨Or.inl rfl, Or.inl rfl, rfl⟩
    · split at h
      all_goals
        cases h
        exact ⟨Or.inl rfl, Or.inl rfl, rfl⟩
  | removing row id =>
    simp only [removeStep, effect] at h
    by_cases hfound : (w.container.any fun c => c.id = id) = true
    · rw [if_pos hfound] at h
      cases o <;> cases h
      · exact ⟨Or.inr rfl, Or.inl rfl, rfl⟩
      · exact ⟨Or.inl rfl, Or.inl rfl, rfl⟩
      · exact ⟨Or.inr rfl, Or.inl rfl, rfl⟩
    · rw [if_neg hfound] at h
      cases h
      exact ⟨Or.inl rfl, Or.inl rfl, rfl⟩
  | deleting row =>
    have hrow : (if w.row = some row then none else w.row) = w.row ∨
        (if w.row = some row then none else w.row) = none := by
      by_cases heq : w.row = some row
      · exact Or.inr (if_pos heq)
      · exact Or.inl (if_neg heq)
    cases o <;> cases h
    · exact ⟨Or.inl rfl, hrow, rfl⟩
    · exact ⟨Or.inl rfl, Or.inl rfl, rfl⟩
    · exact ⟨Or.inl rfl, hrow, rfl⟩

/-- It stays so where less exists. -/
theorem Removal.Settled.mono (hr : r.Settled w)
    (hcontainer : w'.container = w.container ∨ w'.container = none)
    (hrow : w'.row = w.row ∨ w'.row = none) (hnext : w'.nextRow = w.nextRow) : r.Settled w' := by
  have hold : ∀ c, w'.container = some c → w.container = some c := by
    intro c hc
    rcases hcontainer with hsame | hnone
    · rwa [← hsame]
    · rw [hnone] at hc
      cases hc
  cases r with
  | loading | threw => trivial
  | finding row =>
    show row < w'.nextRow
    rw [hnext]
    exact hr
  | removing row id => exact ⟨hnext ▸ hr.1, fun c hc => hr.2 c (hold c hc)⟩
  | deleting row => exact ⟨hnext ▸ hr.1, fun c hc => hr.2 c (hold c hc)⟩
  | returned row =>
    refine ⟨hnext ▸ hr.1, ?_, fun c hc => hr.2.2 c (hold c hc)⟩
    rcases hrow with hsame | hnone
    · rw [hsame]
      exact hr.2.1
    · rw [hnone]
      exact fun h => by cases h

/-- **A call of a removal sees to one thing more.** -/
theorem Removal.Settled.removeStep (hr : r.Settled w)
    (h : CompanionRemoval.removeStep o w r = some (w', r')) : r'.Settled w' := by
  cases r with
  | returned row => cases h
  | threw => cases h
  | loading =>
    simp only [CompanionRemoval.removeStep] at h
    split at h
    · cases h
      trivial
    · split at h
      · cases h
        trivial
      · rename_i row hrow
        cases h
        exact w.known row hrow
  | finding row =>
    simp only [CompanionRemoval.removeStep] at h
    split at h
    · cases h
      trivial
    · split at h
      · rename_i hnone
        cases h
        refine ⟨hr, fun c hc => ?_⟩
        rw [hnone] at hc
        cases hc
      · rename_i c hsome
        cases h
        refine ⟨hr, fun c' hc' _ => ?_⟩
        rw [some.inj (hsome.symm.trans hc')]
  | removing row id =>
    simp only [CompanionRemoval.removeStep, effect] at h
    by_cases hfound : (w.container.any fun c => c.id = id) = true
    · rw [if_pos hfound] at h
      cases o <;> cases h
      · exact ⟨hr.1, fun c hc => by cases hc⟩
      · trivial
      · trivial
    · rw [if_neg hfound] at h
      cases h
      trivial
  | deleting row =>
    cases o <;> cases h
    · refine ⟨hr.1, ?_, hr.2⟩
      show (if w.row = some row then none else w.row) ≠ some row
      split
      · exact fun h => by cases h
      · assumption
    · trivial
    · trivial

theorem Inv.call (h : Inv s) {p : Nat} (hintime : InTime s (.call p o))
    (hstep : step s (.call p o) = some s') : Inv s' := by
  simp only [step, bind_eq_some_iff, map_eq_some_iff] at hstep
  obtain ⟨x, hx, ⟨x', w'⟩, hadvance, rfl⟩ := hstep
  rcases Script.advance_world hadvance with rfl | ⟨hne, c, reply, hnext, heffect⟩
  · exact h
  · intro n r hr
    refine (h n r hr).call heffect ?_
    rintro companion rfl
    exact hintime hne x companion hx hnext n r hr

theorem Inv.removal (h : Inv s) {n : Nat} (hstep : step s (.removal n o) = some s') : Inv s' := by
  simp only [step, bind_eq_some_iff, map_eq_some_iff] at hstep
  obtain ⟨r, hr, ⟨w', r'⟩, hremove, rfl⟩ := hstep
  obtain ⟨hcontainer, hrow, hnext⟩ := removeStep_exists hremove
  intro m r'' hm
  rcases Runs.update_eq_some hm with ⟨-, hnew⟩ | ⟨-, hold⟩
  · obtain rfl := some.inj hnew
    exact (h n r hr).removeStep hremove
  · exact (h m r'' hold).mono hcontainer hrow hnext

theorem Inv.begin (h : Inv s) {p : Nat} {x : Task Unit} (hbegin : s.begin p x = some s') : Inv s' := by
  simp only [State.begin] at hbegin
  split at hbegin
  · cases hbegin
  · cases hbegin
    exact h

/-- **One step.** -/
theorem Inv.step {a : Action} (h : Inv s) (hintime : InTime s a)
    (hstep : CompanionRemoval.step s a = some s') : Inv s' := by
  cases a with
  | call p o => exact h.call hintime hstep
  | removal n o => exact h.removal hstep
  | create p dto => exact h.begin hstep
  | reprovision p files =>
    simp only [CompanionRemoval.step, bind_eq_some_iff] at hstep
    obtain ⟨row, -, hbegin⟩ := hstep
    exact h.begin hbegin
  | remove n =>
    simp only [CompanionRemoval.step] at hstep
    split at hstep
    · cases hstep
    · cases hstep
      intro m r hm
      rcases Runs.update_eq_some hm with ⟨-, hnew⟩ | ⟨-, hold⟩
      · obtain rfl := some.inj hnew
        trivial
      · exact h m r hold

theorem Inv.gone (h : Inv s) : Gone s :=
  fun n row hreturned _ => (h n (.returned row) hreturned).2

/-- No request is under way. -/
def initial (w : World) : State := ⟨w, fun _ => none, fun _ => none⟩

/-- **Nothing is left of a companion that was removed**, in every state of a run in which no
provisioning creates the container of a companion that a removal has looked for. -/
theorem companions_gone (w : World) (as : List Action) (s : State)
    (hintime : Runs.Meets step InTime (initial w) as)
    (hexec : Runs.exec step (initial w) as = some s) : Gone s := by
  have hinitial : Inv (initial w) := fun n r h => by cases h
  have hinv : Inv s :=
    Runs.exec_invariant (fun _ _ _ (h : Inv _) ha hstep => h.step ha hstep) as _ _ hinitial hintime hexec
  exact hinv.gone

/-! ## A companion that is created and removed -/

/-- The image and the network are there, the companion is not. -/
def ready : World where
  row := none
  nextRow := 0
  container := none
  nextId := 0
  image := true
  network := true
  proxy := true
  hostTaken := false
  known _ h := by cases h

/-- An admin app that is reached through a port. -/
def adminer : Request := ⟨true, false, true, true, 0⟩

/-- The removal begins when the provisioning has ended. -/
def oneAfterTheOther : List Action :=
  .create 1 adminer :: List.replicate 10 (.call 1 .ok) ++ .remove 1 :: List.replicate 4 (.removal 1 .ok)

theorem gone_oneAfterTheOther :
    ∃ s, Runs.exec step (initial ready) oneAfterTheOther = some s ∧
      s.removals 1 = some (.returned 0) ∧ Gone s := by
  refine ⟨_, rfl, rfl, companions_gone ready oneAfterTheOther _ ?_ rfl⟩
  refine Runs.meets_cons rfl trivial ?_
  iterate 10 refine Runs.meets_cons rfl (fun _ _ _ _ _ _ _ h => by cases h) ?_
  refine Runs.meets_cons rfl trivial ?_
  iterate 4 refine Runs.meets_cons rfl trivial ?_
  trivial

/-- The provisioning finds no container, the removal finds none and returns, and then the
container is created. -/
def removedWhilePulling : List Action :=
  .create 1 adminer :: List.replicate 7 (.call 1 .ok) ++
    .remove 1 :: List.replicate 3 (.removal 1 .ok) ++ List.replicate 3 (.call 1 .ok)

theorem container_outlives_companion :
    ¬ ∀ (as : List Action) (s : State), Runs.exec step (initial ready) as = some s → Gone s := by
  intro h
  have hgone := h removedWhilePulling _ rfl 1 0 rfl ?_
  · exact hgone.2 ⟨0, 0⟩ rfl rfl
  · intro p x hx
    by_cases hp : p = 1
    · subst hp
      obtain rfl : Script.done () = x := Option.some.inj hx
      rfl
    · simp [Function.update_of_ne hp, initial] at hx

end Aoox.CompanionRemoval
