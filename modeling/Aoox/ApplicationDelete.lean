import Aoox.PreviousDaemons
import Aoox.ReplaceContainer
import Aoox.Scripts

/-! # Deleting an application

`destroy` looks for everything an application may have on its daemons, place after place:
the previews, the container and its `-next`, the swarm service, the daemons it was moved
away from.  What it finds it removes, and then it removes the row.  A deployment that loaded
the application earlier does not look at the row again before it creates its container, and
what it creates where the delete has looked already is never removed.

A deployment is the program of its calls (`run`), the delete the list of its looks
(`looks`), and `step` is any interleaving of them.  Nothing is left as long as everything is
where the delete is still going to look (`nothing_left`).
-/
namespace Aoox.ApplicationDelete
open JsString Scripts List Option Function
open PreviousDaemons (ServerId HOST_DAEMON daemonKey pendingDaemons)
open Containers (containerNameFor nextName hasHealthcheck hasHostPort isBlueGreen Container)

/-! ## The daemons -/

/-- The columns of an application that say where it runs and how. -/
structure Application extends Containers.Application where
  serverId : ServerId
  /-- `deployMode === 'service'`. -/
  service : Bool

/-- The row, with the previews of the application. -/
structure Row where
  app : Application
  previousDaemons : List JsString
  previews : List Nat

/-- The application's containers on each daemon, its swarm service, and its row. -/
structure World where
  daemons : JsString → Containers.World
  service : Option Nat
  nextService : Nat
  servers : JsString → Bool
  row : Option Row

/-- The daemon can be reached through its row; the host has none. -/
def World.known (w : World) (d : JsString) : Bool := d = HOST_DAEMON || w.servers d

def World.update (w : World) (d : JsString) (v : Containers.World) : World :=
  { w with daemons := Function.update w.daemons d v }

inductive Call where
  | find (d name : JsString)
  /-- Every container with the label of the application. -/
  | list (d : JsString)
  | create (d image name : JsString)
  | remove (d : JsString) (id : Nat)
  | rename (d : JsString) (id : Nat) (name : JsString)
  | inspectService
  | createService
  | removeService (id : Nat)
  | hasServer (d : JsString)
  | readRow
  | writeRow (previousDaemons : List JsString)
  /-- Any call that does not change what exists. -/
  | other

def Call.Reply : Call → Type
  | find _ _ | inspectService => Option Nat
  | list _ => List Nat
  | create _ _ _ | createService => Nat
  | hasServer _ => Bool
  | readRow => Option Row
  | remove _ _ | rename _ _ _ | removeService _ | writeRow _ | other => Unit

/-- What a call does.  A daemon refuses names that are in use and ids it does not have, but a
service that is gone is not an error. -/
def effect : (c : Call) → World → Option (c.Reply × World)
  | .find d name, w => some (((w.daemons d).named name).map Container.id, w)
  | .list d, w => some ((w.daemons d).containers.map Container.id, w)
  | .create d image name, w =>
    if h : ∀ k ∈ (w.daemons d).containers, k.name ≠ name then
      some ((w.daemons d).nextId, w.update d ((w.daemons d).add name image h))
    else none
  | .remove d id, w =>
    if (w.daemons d).containers.any fun k => k.id = id then
      some ((), w.update d ((w.daemons d).remove id))
    else none
  | .rename d id name, w =>
    if !(w.daemons d).containers.any fun k => k.id = id then none
    else if h : ∀ k ∈ (w.daemons d).containers, k.name ≠ name then
      some ((), w.update d ((w.daemons d).rename id name h))
    else none
  | .inspectService, w => some (w.service, w)
  | .createService, w =>
    if w.service.isSome then none
    else some (w.nextService, { w with service := some w.nextService, nextService := w.nextService + 1 })
  | .removeService id, w =>
    some ((), { w with service := if w.service = some id then none else w.service })
  | .hasServer d, w => some (w.known d, w)
  | .readRow, w => some (w.row, w)
  | .writeRow previousDaemons, w =>
    some ((), { w with row := w.row.map fun r => { r with previousDaemons := previousDaemons } })
  | .other, w => some ((), w)

attribute [local simp] effect

def calls : System World := ⟨Call, Call.Reply, effect⟩

abbrev Task := Script calls

/-! ## The runner -/

def find (d name : JsString) : Task (Option Nat) := Script.await (S := calls) (Call.find d name)

def list (d : JsString) : Task (List Nat) := Script.await (S := calls) (Call.list d)

def create (d image name : JsString) : Task Nat := Script.await (S := calls) (Call.create d image name)

def remove (d : JsString) (id : Nat) : Task Unit := Script.await (S := calls) (Call.remove d id)

def rename (d : JsString) (id : Nat) (name : JsString) : Task Unit :=
  Script.await (S := calls) (Call.rename d id name)

def inspectService : Task (Option Nat) := Script.await (S := calls) Call.inspectService

def createService : Task Nat := Script.await (S := calls) Call.createService

def removeService (id : Nat) : Task Unit := Script.await (S := calls) (Call.removeService id)

def hasServer (d : JsString) : Task Bool := Script.await (S := calls) (Call.hasServer d)

def readRow : Task (Option Row) := Script.await (S := calls) Call.readRow

def writeRow (previousDaemons : List JsString) : Task Unit :=
  Script.await (S := calls) (Call.writeRow previousDaemons)

def other : Task Unit := Script.await (S := calls) Call.other

/-- `if (found) await f(found)`. -/
def whenFound (found : Option Nat) (f : Nat → Task Unit) : Task Unit :=
  match found with
  | some id => f id
  | none => pure ()

/-- `SwarmDeployService.remove`. -/
def removeSwarm : Task Unit := do
  whenFound (← inspectService) removeService

/-- `SwarmDeployService.deploy`: an update of the service stands as one call. -/
def deploySwarm (name : JsString) : Task Unit := do
  other -- `isActive`, `ensureNetwork`
  whenFound (← find HOST_DAEMON name) fun id => do
    other -- `log.step`
    remove HOST_DAEMON id
  whenFound (← find HOST_DAEMON (nextName name)) fun id => do
    other
    remove HOST_DAEMON id
  match ← inspectService with
  | some _ => other
  | none => do
    other
    let id ← createService
    Script.attempt other do -- `waitConverged`
      Script.swallow (removeService id)
      .thrown

/-- `removeFailed`: by id, else by name. -/
def removeFailed (d : JsString) (id : Option Nat) (name : JsString) : Task Unit :=
  Script.swallow do
    match id with
    | some id => remove d id
    | none => do whenFound (← find d name) (remove d)

def recoverPrevious (replace : JsString → Task Unit) (app : Application) (failedRef : JsString) :
    Task Unit :=
  match app.currentImage with
  | none => pure ()
  | some previous =>
    if previous = [] ∨ previous = failedRef then pure () else Script.swallow (replace previous)

/-- The `catch` block of `replaceContainer`. -/
def giveUp (replace : JsString → Task Unit) (app : Application) (imageRef : JsString)
    (recovers : Bool) (createName : JsString) (id : Option Nat) : Task Nat := do
  removeFailed (daemonKey app.serverId) id createName
  (if recovers then recoverPrevious replace app imageRef else pure () : Task Unit)
  .thrown

/-- The `try` block: the handler knows the id once there is one. -/
def startNew (d imageRef createName : JsString) (handler : Option Nat → Task Nat) : Task Nat := do
  let id ← Script.attempt (create d imageRef createName) (handler none)
  Script.attempt (other >>= fun _ => pure id) (handler (some id)) -- start and health check

/-- The old container goes, or what a crashed blue/green deploy left under the new one's
name. -/
def clearName (d : JsString) (blueGreen : Bool) (existing : Option Nat) (createName : JsString) :
    Task Unit :=
  if blueGreen then do whenFound (← find d createName) (remove d)
  else whenFound existing (remove d)

/-- The old container of a blue/green swap is retired and `-next` takes its name. -/
def switchOver (d name : JsString) (id old : Nat) : Task Unit := do
  Script.swallow other -- `stopContainer`
  remove d old
  rename d id name

/-- Containers of their own: everything of `replaceContainer` behind the service branch. -/
def replacePlain (replace : JsString → Task Unit) (app : Application) (imageRef : JsString)
    (existing : Option Nat) : Task Unit := do
  let d := daemonKey app.serverId
  let name := containerNameFor app.toApplication
  Script.swallow removeSwarm
  let blueGreen := hasHealthcheck app.toApplication && !hasHostPort app.toApplication none &&
    existing.isSome
  let createName := if blueGreen then nextName name else name
  clearName d blueGreen existing createName
  let id ← startNew d imageRef createName
    (giveUp replace app imageRef (!blueGreen && existing.isSome) createName)
  (if hasHealthcheck app.toApplication then do
    (if blueGreen then whenFound existing (switchOver d name id) else pure () : Task Unit)
    other
  else pure () : Task Unit)

/-- `replaceContainer` with at most `depth` nested recoveries. -/
def replaceContainer : Nat → Application → JsString → Task Unit
  | 0, _, _ => .thrown
  | depth + 1, app, imageRef => do
    other -- environment, exposed ports
    let existing ← find (daemonKey app.serverId) (containerNameFor app.toApplication)
    other -- network, domains, mounts, labels
    (if app.service then
      if app.serverId.getD [] ≠ [] then .thrown else deploySwarm (containerNameFor app.toApplication)
    else replacePlain (replaceContainer depth app) app imageRef existing : Task Unit)

/-- `removeApplicationContainers`. -/
def removeAll (d : JsString) : List Nat → Task Unit
  | [] => pure ()
  | id :: ids => do
    remove d id
    removeAll d ids

/-- The sweep of `retirePreviousDaemons`; gives the daemons that need no other. -/
def sweep : List JsString → List JsString → Task (List JsString)
  | [], done => pure done
  | d :: targets, done => do
    let done ← Script.attempt (do
        if ← hasServer d then do
          removeAll d (← list d)
          pure (done ++ [d])
        else pure (done ++ [d]))
      (pure done)
    sweep targets done

def retirePreviousDaemons (app : Application) : Task Unit :=
  Script.swallow do
    match ← readRow with
    | none => pure ()
    | some fresh =>
      if fresh.app.serverId ≠ app.serverId then pure ()
      else do
        let done ← sweep (pendingDaemons fresh.previousDaemons fresh.app.serverId) []
        (if done = [] then pure ()
        else writeRow (fresh.previousDaemons.filter (· ∉ done)) : Task Unit)

/-- `run`, for the copy of the application it was queued with: the image is pulled or built,
the container replaced, the former daemons retired.  A recovery finds nothing else to go
back to, so one nested call is all there is. -/
def run (app : Application) (imageRef : JsString) : Task Unit :=
  Script.attempt (do
      other -- pull, or build and push
      other -- `log.step`
      replaceContainer 2 app imageRef
      other -- `persistOutcome`
      retirePreviousDaemons app
      other) -- `log.finish`
    (Script.swallow other) -- `recordFailure`, `log.finish`

/-! ## The delete -/

def previewContainerName (app : Application) (prNumber : Nat) : JsString :=
  js "aoox-app-" ++ app.appName ++ js "-pr" ++ js (toString prNumber)

/-- Where `destroy` looks. -/
inductive Look where
  /-- A preview's name: a failure is logged and the preview skipped. -/
  | preview (d name : JsString)
  | named (d name : JsString)
  | service
  /-- Everything with the label on a daemon the application was moved away from. -/
  | labelled (d : JsString)
  deriving DecidableEq

/-- The places, in the order of `destroy`. -/
def looks (row : Row) : List Look :=
  let d := daemonKey row.app.serverId
  let name := containerNameFor row.app.toApplication
  (row.previews.map fun n => .preview d (previewContainerName row.app n)) ++
    [.named d name, .named d (nextName name)] ++
    (if row.app.service then [.service] else []) ++
    (pendingDaemons row.previousDaemons row.app.serverId).map .labelled

def Look.found (w : World) : Look → List Nat
  | preview d name | named d name => (((w.daemons d).named name).map Container.id).toList
  | service => w.service.toList
  | labelled d => (w.daemons d).containers.map Container.id

def Look.removal (id : Nat) : Look → Call
  | preview d _ | named d _ | labelled d => .remove d id
  | service => .removeService id

/-- `ignoreMissing`. -/
def Look.ignoresMissing : Look → Bool
  | named _ _ | service => true
  | preview _ _ | labelled _ => false

/-- How far a delete is. -/
inductive Deletion where
  | idle
  | looking (todo : List Look)
  | removing (l : Look) (ids : List Nat) (todo : List Look)
  | returned
  | threw

/-- Something went wrong at a place. -/
def Look.fail (todo : List Look) : Look → Deletion
  | preview _ _ => .looking todo
  | named _ _ | service | labelled _ => .threw

/-- A former server that has no row any more is skipped. -/
def Look.skipped (w : World) : Look → Bool
  | labelled d => !w.known d
  | preview _ _ | named _ _ | service => false

/-! ## The system -/

structure State where
  world : World
  deployments : Nat → Option (Task Unit)
  deletion : Deletion

inductive Action where
  /-- A deployment is handed its copy of the application. -/
  | start (p : Nat) (app : Application) (imageRef : JsString)
  /-- A deployment makes its next call. -/
  | call (p : Nat) (o : Outcome)
  /-- A delete loads the application. -/
  | begin
  /-- The delete makes its next call. -/
  | delete (o : Outcome)

/-- The next call of the delete. -/
def deleteStep (o : Outcome) (w : World) : Deletion → Option (World × Deletion)
  | .idle | .returned | .threw => none
  | .looking [] =>
    -- volumes, maintenance page, metrics, DNS records; then the row
    match o with
    | .ok => some ({ w with row := none }, .returned)
    | .failed => some (w, .threw)
    | .lost => some ({ w with row := none }, .threw)
  | .looking (l :: todo) =>
    if l.skipped w then some (w, .looking todo)
    else if o = .ok then some (w, .removing l (l.found w) todo)
    else some (w, l.fail todo)
  | .removing _ [] todo => some (w, .looking todo)
  | .removing l (id :: ids) todo =>
    match effect (l.removal id) w with
    | none => some (w, if o = .ok ∧ l.ignoresMissing then .removing l ids todo else l.fail todo)
    | some (_, w') =>
      match o with
      | .ok => some (w', .removing l ids todo)
      | .failed => some (w, l.fail todo)
      | .lost => some (w', l.fail todo)

def step (s : State) : Action → Option State
  | .start p app imageRef =>
    if (s.deployments p).isSome then none
    else some { s with deployments := Function.update s.deployments p (some (run app imageRef)) }
  | .call p o =>
    (s.deployments p).bind fun x =>
      (x.advance o s.world).map fun (x', w') =>
        { s with world := w', deployments := Function.update s.deployments p (some x') }
  | .begin =>
    match s.deletion, s.world.row with
    | .idle, some row | .threw, some row => some { s with deletion := .looking (looks row) }
    | _, _ => none
  | .delete o => (deleteStep o s.world s.deletion).map fun (w', d') =>
      { s with world := w', deletion := d' }

/-! ## What exists, and what the delete is still going to find -/

inductive Item where
  | container (d name : JsString) (id : Nat)
  | service (id : Nat)

def World.Has (w : World) : Item → Prop
  | .container d name id => ∃ k ∈ (w.daemons d).containers, k.name = name ∧ k.id = id
  | .service id => w.service = some id

/-- On a daemon that can be reached. -/
def World.reaches (w : World) : Item → Prop
  | .container d _ _ => w.known d = true
  | .service _ => True

def Look.covers : Look → Item → Prop
  | .preview d name, .container d' name' _ | .named d name, .container d' name' _ => d' = d ∧ name' = name
  | .labelled d, .container d' _ _ => d' = d
  | .service, .service _ => True
  | _, _ => False

/-- It is among what a look has found. -/
def Look.holds (ids : List Nat) : Look → Item → Prop
  | .preview d _, .container d' _ id | .named d _, .container d' _ id
  | .labelled d, .container d' _ id => d' = d ∧ id ∈ ids
  | .service, .service id => id ∈ ids
  | _, _ => False

/-- A delete that is under way is going to remove it. -/
def Deletion.Awaits : Deletion → Item → Prop
  | .idle, _ | .threw, _ => True
  | .looking todo, i => ∃ l ∈ todo, l.covers i
  | .removing l ids todo, i => l.holds ids i ∨ ∃ m ∈ todo, m.covers i
  | .returned, _ => False

def Call.Puts (w : World) : Call → Item → Prop
  | create d _ name, i => i = .container d name (w.daemons d).nextId
  | rename d id name, i => i = .container d name id
  | createService, i => i = .service w.nextService
  | _, _ => False

/-- Once the delete has returned and the deployments have ended, nothing of the application
is left on a daemon that can be reached. -/
def NothingLeft (s : State) : Prop :=
  s.deletion = .returned → (∀ p x, s.deployments p = some x → x.next = none) →
    ∀ i, s.world.Has i → ¬ s.world.reaches i

/-- Everything is where the delete looks when it begins; a preview it gives up has nothing
that it would not find elsewhere; and no deployment puts anything where it has looked. -/
def Watched (s : State) : Action → Prop
  | .start _ _ _ => True
  | .begin => ∀ row, s.world.row = some row → ∀ i, s.world.Has i → s.world.reaches i →
      ∃ l ∈ looks row, l.covers i
  | .call p o => o ≠ .failed → ∀ x c, s.deployments p = some x → x.next = some c →
      ∀ i, c.Puts s.world i → s.world.reaches i → s.deletion.Awaits i
  | .delete o =>
    match s.deletion with
    | .looking (.preview d name :: todo) => o ≠ .ok →
        ∀ i, s.world.Has i → (Look.preview d name).covers i → ∃ m ∈ todo, m.covers i
    | .removing (.preview d name) ids todo => o = .failed →
        ∀ i, s.world.Has i → (Look.preview d name).holds ids i → ∃ m ∈ todo, m.covers i
    | _ => True

variable {w w' : World} {i : Item}

/-! ## The calls -/

theorem reaches_congr (h : w'.servers = w.servers) : w'.reaches i ↔ w.reaches i := by
  cases i with
  | container d name id => simp [World.reaches, World.known, h]
  | service id => exact Iff.rfl

variable {d : JsString}

theorem has_update {v : Containers.World} (h : (w.update d v).Has i) :
    w.Has i ∨ ∃ k ∈ v.containers, i = .container d k.name k.id := by
  cases i with
  | service id => exact Or.inl h
  | container d' name id =>
    obtain ⟨k, hk, rfl, rfl⟩ := h
    by_cases hd : d' = d
    · subst hd
      simp only [World.update, update_self] at hk
      exact Or.inr ⟨k, hk, rfl⟩
    · simp only [World.update, update_of_ne hd] at hk
      exact Or.inl ⟨k, hk, rfl, rfl⟩

variable {c : Call}

/-- **A call adds no more than what it puts somewhere.** -/
theorem effect_has {r : c.Reply} (h : effect c w = some (r, w')) (hi : w'.Has i) :
    w.Has i ∨ c.Puts w i := by
  cases c with
  | create d image name =>
    simp only [effect] at h
    split at h
    · rename_i hfree
      cases h
      rcases has_update hi with hold | ⟨k, hk, rfl⟩
      · exact Or.inl hold
      · rcases mem_append.mp hk with hk | hk
        · exact Or.inl ⟨k, hk, rfl, rfl⟩
        · obtain rfl := mem_singleton.mp hk
          exact Or.inr rfl
    · cases h
  | remove d id =>
    simp only [effect] at h
    split at h
    · cases h
      rcases has_update hi with hold | ⟨k, hk, rfl⟩
      · exact Or.inl hold
      · exact Or.inl ⟨k, (mem_filter.mp hk).1, rfl, rfl⟩
    · cases h
  | rename d id name =>
    simp only [effect] at h
    split at h
    · cases h
    · split at h
      · cases h
        rcases has_update hi with hold | ⟨k, hk, rfl⟩
        · exact Or.inl hold
        · obtain ⟨l, hl, rfl⟩ := mem_map.mp hk
          by_cases hid : l.id = id
          · rw [if_pos hid]
            exact Or.inr (by rw [← hid]; rfl)
          · rw [if_neg hid]
            exact Or.inl ⟨l, hl, rfl, rfl⟩
      · cases h
  | createService =>
    simp only [effect] at h
    split at h
    · cases h
    · cases h
      cases i with
      | container d name id => exact Or.inl hi
      | service id => exact Or.inr (by rw [← some.inj hi]; rfl)
  | removeService id =>
    cases h
    cases i with
    | container d name id' => exact Or.inl hi
    | service id' =>
      refine Or.inl ?_
      simp only [World.Has] at hi ⊢
      split at hi
      · cases hi
      · exact hi
  | writeRow previousDaemons =>
    cases h
    cases i <;> exact Or.inl hi
  | find | list | inspectService | hasServer | readRow | other =>
    cases h
    exact Or.inl hi

theorem effect_servers {r : c.Reply} (h : effect c w = some (r, w')) : w'.servers = w.servers := by
  cases c <;> simp only [effect] at h
  case create | remove | createService =>
    split at h
    all_goals first | cases h; rfl | cases h
  case rename =>
    split at h
    · cases h
    · split at h
      · cases h
        rfl
      · cases h
  all_goals
    cases h
    rfl

variable {id : Nat}

theorem remove_has (hi : (w.update d ((w.daemons d).remove id)).Has i) :
    w.Has i ∧ ∀ name, i ≠ .container d name id := by
  cases i with
  | service id' => exact ⟨hi, fun name h => by cases h⟩
  | container d' name id' =>
    obtain ⟨k, hk, rfl, rfl⟩ := hi
    by_cases hd : d' = d
    · subst hd
      simp only [World.update, update_self] at hk
      obtain ⟨hk, hne⟩ := mem_filter.mp hk
      refine ⟨⟨k, hk, rfl, rfl⟩, ?_⟩
      rintro name ⟨⟩
      simp at hne
    · simp only [World.update, update_of_ne hd] at hk
      refine ⟨⟨k, hk, rfl, rfl⟩, ?_⟩
      rintro name ⟨⟩
      exact hd rfl

variable {l : Look}

theorem holds_one (h : l.holds [id] i) :
    (∃ d name, i = .container d name id ∧ l.removal id = .remove d id) ∨
      (l = .service ∧ i = .service id) := by
  cases l with
  | service =>
    cases i with
    | container d name id' => exact h.elim
    | service id' =>
      obtain rfl := mem_singleton.mp h
      exact Or.inr ⟨rfl, rfl⟩
  | preview | named | labelled =>
    cases i with
    | service id' => exact h.elim
    | container d name id' =>
      obtain ⟨rfl, hid⟩ := h
      obtain rfl := mem_singleton.mp hid
      exact Or.inl ⟨_, _, rfl, rfl⟩

/-- **A removal takes away what it is for.** -/
theorem removal_has {r : (l.removal id).Reply} (h : effect (l.removal id) w = some (r, w'))
    (hi : w'.Has i) : w.Has i ∧ ¬ l.holds [id] i := by
  have hold : w.Has i := by
    rcases effect_has h hi with hold | hputs
    · exact hold
    · cases l <;> exact hputs.elim
  refine ⟨hold, ?_⟩
  intro hl
  rcases holds_one hl with ⟨d, name, rfl, hremoval⟩ | ⟨rfl, rfl⟩
  · have hw' : w' = w.update d ((w.daemons d).remove id) := by
      revert r
      rw [hremoval]
      intro r h
      simp only [effect] at h
      split at h
      · cases h
        rfl
      · cases h
    rw [hw'] at hi
    exact (remove_has hi).2 name rfl
  · cases h
    simp only [World.Has] at hi
    split at hi
    · cases hi
    · rename_i hne
      exact hne hi

theorem removal_refused (h : effect (l.removal id) w = none) (hi : w.Has i) : ¬ l.holds [id] i := by
  intro hl
  rcases holds_one hl with ⟨d, name, rfl, hremoval⟩ | ⟨rfl, rfl⟩
  · rw [hremoval] at h
    obtain ⟨k, hk, -, hid⟩ := hi
    simp only [effect] at h
    split at h
    · cases h
    · rename_i hnone
      exact hnone (any_eq_true.mpr ⟨k, hk, by simpa using hid⟩)
  · cases h

/-- **A look finds what it covers.** -/
theorem holds_found (hi : w.Has i) (hl : l.covers i) : l.holds (l.found w) i := by
  cases l with
  | service =>
    cases i with
    | container d name id => exact hl.elim
    | service id =>
      simp only [World.Has] at hi
      simp [Look.holds, Look.found, hi]
  | labelled d =>
    cases i with
    | service id => exact hl.elim
    | container d' name id =>
      obtain ⟨k, hk, -, rfl⟩ := hi
      obtain rfl := hl
      exact ⟨rfl, mem_map_of_mem hk⟩
  | preview | named =>
    cases i with
    | service id => exact hl.elim
    | container d' name id =>
      obtain ⟨k, hk, rfl, rfl⟩ := hi
      obtain ⟨rfl, rfl⟩ := hl
      refine ⟨rfl, ?_⟩
      rw [Look.found, Containers.named_eq_some.mpr ⟨hk, rfl⟩]
      exact mem_singleton_self _

variable {ids : List Nat}

theorem holds_cons (h : l.holds (id :: ids) i) (hid : ¬ l.holds [id] i) : l.holds ids i := by
  cases l <;> cases i <;> simp_all [Look.holds]

/-! ## The invariant -/

/-- What a delete is going to remove is all there is. -/
structure Swept (s : State) : Prop where
  awaits : ∀ i, s.world.Has i → s.world.reaches i → s.deletion.Awaits i
  /-- A name finds one container at most. -/
  single : ∀ d name ids todo, s.deletion = .removing (.preview d name) ids todo → ids.length ≤ 1

variable {s s' : State}

variable {o : Outcome}

/-- **A call of a deployment.** -/
theorem Swept.call (h : Swept s) {p : Nat} (hwatched : Watched s (.call p o))
    (hstep : step s (.call p o) = some s') : Swept s' := by
  simp only [step, bind_eq_some_iff, map_eq_some_iff] at hstep
  obtain ⟨x, hx, ⟨x', w'⟩, hadvance, rfl⟩ := hstep
  refine ⟨?_, h.single⟩
  intro i hi hreaches
  rcases Script.advance_world hadvance with rfl | ⟨hne, c, r, hnext, heffect⟩
  · exact h.awaits i hi hreaches
  · have hbefore := (reaches_congr (effect_servers heffect)).mp hreaches
    rcases effect_has heffect hi with hold | hputs
    · exact h.awaits i hold hbefore
    · exact hwatched hne x c hx hnext i hputs hbefore

variable {deployments : Nat → Option (Task Unit)}

variable {todo : List Look}

/-- A place that is given up. -/
theorem swept_fail
    (h : ∀ d name, l = .preview d name → ∀ i, w.Has i → w.reaches i → ∃ m ∈ todo, m.covers i) :
    Swept ⟨w, deployments, l.fail todo⟩ := by
  cases l with
  | preview d name => exact ⟨h d name rfl, fun _ _ _ _ he => by cases he⟩
  | named | service | labelled => exact ⟨fun _ _ _ => trivial, fun _ _ _ _ he => by cases he⟩

/-- **The delete looks at a place.** -/
theorem Swept.look (h : Swept ⟨w, deployments, .looking (l :: todo)⟩)
    (hwatched : Watched ⟨w, deployments, .looking (l :: todo)⟩ (.delete o)) :
    Swept ⟨w, deployments,
      if l.skipped w then .looking todo
      else if o = .ok then .removing l (l.found w) todo
      else l.fail todo⟩ := by
  have hcases : ∀ i, w.Has i → w.reaches i → l.covers i ∨ ∃ m ∈ todo, m.covers i := by
    intro i hi hreaches
    obtain ⟨m, hm, hcovers⟩ := h.awaits i hi hreaches
    rcases mem_cons.mp hm with rfl | hm
    · exact Or.inl hcovers
    · exact Or.inr ⟨m, hm, hcovers⟩
  by_cases hskipped : l.skipped w = true
  · -- what is on a server without a row cannot be reached
    rw [if_pos hskipped]
    refine ⟨?_, fun _ _ _ _ he => by cases he⟩
    intro i hi hreaches
    rcases hcases i hi hreaches with hl | htodo
    · cases l with
      | labelled d =>
        cases i with
        | service id => exact hl.elim
        | container d' name id =>
          obtain rfl := hl
          simp only [Look.skipped, Bool.not_eq_true'] at hskipped
          simp only [World.reaches, hskipped, Bool.false_eq_true] at hreaches
      | preview | named | service => cases hskipped
    · exact htodo
  · rw [if_neg hskipped]
    by_cases ho : o = .ok
    · rw [if_pos ho]
      refine ⟨?_, ?_⟩
      · intro i hi hreaches
        rcases hcases i hi hreaches with hl | htodo
        · exact Or.inl (holds_found hi hl)
        · exact Or.inr htodo
      · rintro d name ids todo ⟨⟩
        simp only [Look.found]
        exact length_toList_le
    · rw [if_neg ho]
      refine swept_fail ?_
      rintro d name rfl i hi hreaches
      rcases hcases i hi hreaches with hl | htodo
      · exact hwatched ho i hi hl
      · exact htodo

/-- **The delete removes what it found.** -/
theorem Swept.remove {d' : Deletion} (h : Swept ⟨w, deployments, .removing l (id :: ids) todo⟩)
    (hwatched : Watched ⟨w, deployments, .removing l (id :: ids) todo⟩ (.delete o))
    (hstep : deleteStep o w (.removing l (id :: ids) todo) = some (w', d')) :
    Swept ⟨w', deployments, d'⟩ := by
  -- a preview's name has no second container
  have hsingle : ∀ d name, l = .preview d name → ∀ j, ¬ l.holds ids j := by
    rintro d name rfl j hj
    have hlen := h.single d name (id :: ids) todo rfl
    obtain rfl : ids = [] := eq_nil_of_length_eq_zero (by simpa using hlen)
    cases j with
    | service id' => exact hj
    | container d' name' id' => exact not_mem_nil hj.2
  have hrest : ∀ i, w.Has i → w.reaches i → ¬ l.holds [id] i →
      l.holds ids i ∨ ∃ m ∈ todo, m.covers i := by
    intro i hi hreaches hid
    rcases h.awaits i hi hreaches with hl | htodo
    · exact Or.inl (holds_cons hl hid)
    · exact Or.inr htodo
  have hkept : ∀ d name ids' todo', (Deletion.removing l ids todo) =
      .removing (.preview d name) ids' todo' →
      ids'.length ≤ 1 := by
    intro d name ids' todo' he
    cases he
    have hlen := h.single d name (id :: ids) todo rfl
    rw [length_cons] at hlen
    omega
  simp only [deleteStep] at hstep
  split at hstep
  · rename_i hrefused
    cases hstep
    by_cases hignored : o = .ok ∧ l.ignoresMissing = true
    · rw [if_pos hignored]
      exact ⟨fun i hi hreaches => hrest i hi hreaches (removal_refused hrefused hi), hkept⟩
    · rw [if_neg hignored]
      refine swept_fail ?_
      intro d name hl i hi hreaches
      rcases hrest i hi hreaches (removal_refused hrefused hi) with hids | htodo
      · exact absurd hids (hsingle d name hl i)
      · exact htodo
  · rename_i r w₁ heffect
    have hremoved : ∀ i, w₁.Has i → w₁.reaches i → l.holds ids i ∨ ∃ m ∈ todo, m.covers i := by
      intro i hi hreaches
      obtain ⟨hold, hid⟩ := removal_has heffect hi
      exact hrest i hold ((reaches_congr (effect_servers heffect)).mp hreaches) hid
    cases o with
    | ok =>
      cases hstep
      exact ⟨hremoved, hkept⟩
    | failed =>
      cases hstep
      refine swept_fail ?_
      rintro d name rfl i hi hreaches
      rcases h.awaits i hi hreaches with hl | htodo
      · exact hwatched rfl i hi hl
      · exact htodo
    | lost =>
      cases hstep
      refine swept_fail ?_
      intro d name hl i hi hreaches
      rcases hremoved i hi hreaches with hids | htodo
      · exact absurd hids (hsingle d name hl i)
      · exact htodo

theorem has_row {row : Option Row} : ({ w with row := row } : World).Has i ↔ w.Has i := by
  cases i <;> exact Iff.rfl

/-- **A call of the delete.** -/
theorem Swept.delete (h : Swept s) (hwatched : Watched s (.delete o))
    (hstep : step s (.delete o) = some s') : Swept s' := by
  obtain ⟨w, deployments, deletion⟩ := s
  simp only [step, map_eq_some_iff] at hstep
  obtain ⟨⟨w', d'⟩, hdelete, rfl⟩ := hstep
  cases deletion with
  | idle | returned | threw => cases hdelete
  | looking todo =>
    cases todo with
    | nil =>
      -- nothing is awaited any more, so nothing is there
      have hnone : ∀ i, w.Has i → ¬ w.reaches i := by
        intro i hi hreaches
        obtain ⟨l, hl, -⟩ := h.awaits i hi hreaches
        cases hl
      cases o with
      | ok =>
        cases hdelete
        refine ⟨?_, fun _ _ _ _ he => by cases he⟩
        intro i hi hreaches
        exact hnone i (has_row.mp hi) ((reaches_congr rfl).mp hreaches)
      | failed | lost =>
        cases hdelete
        exact ⟨fun _ _ _ => trivial, fun _ _ _ _ he => by cases he⟩
    | cons l todo =>
      have hlook := h.look hwatched
      simp only [deleteStep] at hdelete
      split at hdelete <;> rename_i hskipped
      · cases hdelete
        rwa [if_pos hskipped] at hlook
      · rw [if_neg hskipped] at hlook
        split at hdelete <;> rename_i ho
        · cases hdelete
          rwa [if_pos ho] at hlook
        · cases hdelete
          rwa [if_neg ho] at hlook
  | removing l ids todo =>
    cases ids with
    | cons id ids => exact h.remove hwatched hdelete
    | nil =>
      cases hdelete
      refine ⟨?_, fun _ _ _ _ he => by cases he⟩
      intro i hi hreaches
      rcases h.awaits i hi hreaches with hl | htodo
      · cases l <;> cases i <;> simp_all [Look.holds]
      · exact htodo

/-- **One step.** -/
theorem Swept.step {a : Action} (h : Swept s) (hwatched : Watched s a)
    (hstep : ApplicationDelete.step s a = some s') : Swept s' := by
  cases a with
  | call p o => exact h.call hwatched hstep
  | delete o => exact h.delete hwatched hstep
  | start p app imageRef =>
    simp only [ApplicationDelete.step] at hstep
    split at hstep
    · cases hstep
    · cases hstep
      exact ⟨h.awaits, h.single⟩
  | begin =>
    simp only [ApplicationDelete.step] at hstep
    split at hstep
    · rename_i row _ hrow
      cases hstep
      exact ⟨hwatched row hrow, fun _ _ _ _ he => by cases he⟩
    · rename_i row _ hrow
      cases hstep
      exact ⟨hwatched row hrow, fun _ _ _ _ he => by cases he⟩
    · cases hstep

theorem Swept.nothingLeft (h : Swept s) : NothingLeft s := by
  intro hreturned _ i hi hreaches
  have hawaits := h.awaits i hi hreaches
  rw [hreturned] at hawaits
  exact hawaits

/-- Before any delete; the deployments of the application may be anywhere. -/
def initial (w : World) (deployments : Nat → Option (Task Unit)) : State := ⟨w, deployments, .idle⟩

/-- **A delete that returned leaves nothing**, in every state of a run in which everything
stays where the delete is still going to look. -/
theorem nothing_left (w : World) (deployments : Nat → Option (Task Unit)) (as : List Action) (s : State)
    (hwatched : Runs.Meets step Watched (initial w deployments) as)
    (hexec : Runs.exec step (initial w deployments) as = some s) : NothingLeft s := by
  have hinitial : Swept (initial w deployments) := ⟨fun _ _ _ => trivial, fun _ _ _ _ he => by cases he⟩
  have hswept : Swept s :=
    Runs.exec_invariant (fun _ _ _ (h : Swept _) ha hstep => h.step ha hstep) as _ _ hinitial hwatched hexec
  exact hswept.nothingLeft

/-! ## A first deployment -/

def web : Application := ⟨⟨js "web", none, none, none⟩, none, false⟩

def host : World :=
  { daemons := fun _ => Containers.emptyDaemon
    service := none
    nextService := 0
    servers := fun _ => false
    row := some ⟨web, [], []⟩ }

/-- The deployment creates its container before the delete looks for it. -/
def createdFirst : List Action :=
  .start 1 web (js "web:1") :: List.replicate 7 (.call 1 .ok) ++
    .begin :: List.replicate 6 (.delete .ok) ++ List.replicate 4 (.call 1 .ok)

theorem nothing_left_createdFirst :
    ∃ s, Runs.exec step (initial host fun _ => none) createdFirst = some s ∧ s.deletion = .returned ∧
      NothingLeft s := by
  refine ⟨_, rfl, rfl, ?_⟩
  refine nothing_left host (fun _ => none) createdFirst _ ?_ rfl
  refine Runs.meets_cons rfl trivial ?_
  iterate 7 refine Runs.meets_cons rfl (fun _ _ _ _ _ _ _ _ => trivial) ?_
  refine Runs.meets_cons rfl ?_ ?_
  · rintro row ⟨⟩ i hi -
    cases i with
    | service id => cases hi
    | container d name id =>
      obtain ⟨k, hk, rfl, rfl⟩ := hi
      by_cases hd : d = daemonKey web.serverId
      · subst hd
        obtain rfl := List.mem_singleton.mp hk
        exact ⟨.named HOST_DAEMON (js "aoox-app-web"), by decide, rfl, rfl⟩
      · simp [World.update, Function.update_of_ne hd, host, initial, Containers.emptyDaemon] at hk
  · iterate 6 refine Runs.meets_cons rfl trivial ?_
    iterate 4
      refine Runs.meets_cons rfl ?_ ?_
      · rintro - x c ⟨⟩ ⟨⟩ i hputs -
        exact hputs.elim
    trivial

/-- The deployment finds no container, the delete finds none and returns, and then the
deployment creates its own. -/
theorem container_outlives_application :
    ¬ ∀ (as : List Action) (s : State),
      Runs.exec step (initial host fun _ => none) as = some s → NothingLeft s := by
  intro h
  have hleft := h (.start 1 web (js "web:1") :: List.replicate 6 (.call 1 .ok) ++
    .begin :: List.replicate 5 (.delete .ok) ++ List.replicate 5 (.call 1 .ok)) _ rfl rfl
  refine hleft ?_ (.container HOST_DAEMON (js "aoox-app-web") 0) ?_ ?_
  · intro p x hx
    by_cases hp : p = 1
    · subst hp
      obtain rfl : Script.done () = x := Option.some.inj hx
      rfl
    · simp [Function.update_of_ne hp, initial] at hx
  · exact ⟨_, List.mem_singleton_self _, rfl, rfl⟩
  · rfl

end Aoox.ApplicationDelete
