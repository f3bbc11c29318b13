import Aoox.Faults
import Aoox.JsString
import Mathlib.Data.List.Nodup

/-! # Replacing the container of an application

`DeploymentRunner.replaceContainer` starts the new image and retires the
previous container.  With a health check and no host port it works blue/green:
`<name>-next` starts beside the old container, the old one is removed and
`-next` is renamed.  Otherwise the old container goes first.  Any call to the
daemon may fail, with or without its effect, and the process may die at any
call, so a `-next` can be left behind at every point of the blue/green path.

A daemon is a list of containers with distinct names and ids, and `World`
carries that.  What the calls do is stated on `World.named`, the container under
each name.
-/
namespace Aoox.Containers

open Faults Option

/-! ## The daemon -/

/-- What `inspect` reports while a container comes up; `late` is the end of the
waiting time. -/
inductive Health where
  | starting | healthy | unhealthy | missingShell | exited | late
deriving DecidableEq, Repr

structure Container where
  id : Nat
  (name image : JsString)
  running : Bool
  health : Health
deriving DecidableEq, Repr

/-- The containers of a daemon. -/
structure World where
  containers : List Container
  nextId : Nat
  names : containers.Pairwise fun k l => k.name ≠ l.name
  ids : containers.Pairwise fun k l => k.id ≠ l.id
  fresh : ∀ k ∈ containers, k.id < nextId

/-- Why a call or a deployment fails.  The status is the daemon's; 0 is an error
of anything else. -/
inductive Failure where
  | error (status : Nat)
  | exited
  | unhealthy
  | timedOut
  | recovered (cause : Failure)
  | unrecovered (cause : Failure)
  | tooDeep
deriving DecidableEq, Repr

abbrev Docker (α : Type) := Run World Failure Health α

def World.named (w : World) (name : JsString) : Option Container :=
  w.containers.find? fun k => k.name = name

/-- Changes containers one by one, keeping names and ids. -/
def World.modify (w : World) (f : Container → Container)
    (hname : ∀ k, (f k).name = k.name) (hid : ∀ k, (f k).id = k.id) : World where
  containers := w.containers.map f
  nextId := w.nextId
  names := List.pairwise_map.mpr (by simpa [hname] using w.names)
  ids := List.pairwise_map.mpr (by simpa [hid] using w.ids)
  fresh := by
    intro k hk
    obtain ⟨l, hl, rfl⟩ := List.mem_map.mp hk
    exact hid l ▸ w.fresh l hl

def World.setState (w : World) (id : Nat) (running : Bool) (health : Health) : World :=
  w.modify (fun k => if k.id = id then { k with running := running, health := health } else k)
    (fun k => by split <;> rfl) (fun k => by split <;> rfl)

def World.remove (w : World) (id : Nat) : World where
  containers := w.containers.filter fun k => k.id ≠ id
  nextId := w.nextId
  names := w.names.sublist List.filter_sublist
  ids := w.ids.sublist List.filter_sublist
  fresh := fun k hk => w.fresh k (List.mem_filter.mp hk).1

def World.add (w : World) (name image : JsString) (h : ∀ k ∈ w.containers, k.name ≠ name) :
    World where
  containers := w.containers ++ [⟨w.nextId, name, image, false, .starting⟩]
  nextId := w.nextId + 1
  names := List.pairwise_append.mpr ⟨w.names, by simp, by simpa using h⟩
  ids := List.pairwise_append.mpr ⟨w.ids, by simp, by
    intro k hk l hl
    rw [List.mem_singleton.mp hl]
    exact Nat.ne_of_lt (w.fresh k hk)⟩
  fresh := by
    intro k hk
    rcases List.mem_append.mp hk with hk | hk
    · exact Nat.lt_succ_of_lt (w.fresh k hk)
    · rw [List.mem_singleton.mp hk]
      exact Nat.lt_succ_self _

/-- One container under a new name that is free. -/
def World.rename (w : World) (id : Nat) (name : JsString)
    (h : ∀ k ∈ w.containers, k.name ≠ name) : World where
  containers := w.containers.map fun k => if k.id = id then { k with name := name } else k
  nextId := w.nextId
  names := by
    refine List.pairwise_map.mpr ((w.names.and w.ids).imp_of_mem fun {k l} hk hl hkl => ?_)
    by_cases hki : k.id = id
    · have hli : l.id ≠ id := fun he => hkl.2 (hki.trans he.symm)
      simpa [hki, hli] using (h l hl).symm
    · by_cases hli : l.id = id
      · simpa [hki, hli] using h k hk
      · simpa [hki, hli] using hkl.1
  ids := by
    refine List.pairwise_map.mpr (w.ids.imp fun {k l} hkl => ?_)
    split <;> split <;> exact hkl
  fresh := by
    intro k hk
    obtain ⟨l, hl, rfl⟩ := List.mem_map.mp hk
    split <;> exact w.fresh l hl

/-! ## Calls -/

/-- A call that does not touch the containers. -/
def step : Docker Unit := call fun _ w => .ok ((), w)

def findContainerByName (name : JsString) : Docker (Option Container) :=
  call fun _ w => .ok (w.named name, w)

/-- A call on one container; the daemon answers 404 when there is none. -/
def onContainer (id : Nat) (effect : World → World) : Docker Unit :=
  call fun _ w => if w.containers.any fun k => k.id = id then .ok ((), effect w) else .error (.error 404)

def removeContainer (id : Nat) : Docker Unit := onContainer id fun w => w.remove id

def startContainer (id : Nat) : Docker Unit := onContainer id fun w => w.setState id true .starting

def stopContainer (id : Nat) : Docker Unit := onContainer id fun w => w.setState id false .exited

/-- The daemon answers 409 when the name is in use. -/
def createContainer (image name : JsString) : Docker Nat :=
  call fun _ w =>
    if h : ∀ k ∈ w.containers, k.name ≠ name then .ok (w.nextId, w.add name image h)
    else .error (.error 409)

def renameContainer (id : Nat) (name : JsString) : Docker Unit :=
  call fun _ w =>
    if !w.containers.any fun k => k.id = id then .error (.error 404)
    else if h : ∀ k ∈ w.containers, k.name ≠ name then .ok ((), w.rename id name h)
    else .error (.error 409)

/-- `inspectContainer`: the state the container has come to by itself; `none` for
a 404. -/
def inspectContainer (id : Nat) : Docker (Option Health) :=
  call fun health w =>
    if w.containers.any fun k => k.id = id then
      .ok (some health, w.setState id (health ≠ .exited) health)
    else .ok (none, w)

/-! ## The runner -/

structure Application where
  appName : JsString
  healthcheckPath : Option JsString
  hostPort : Option Nat
  currentImage : Option JsString
deriving Repr

/-- What a pull-request preview overrides. -/
structure Override where
  name : JsString
  hostPort : Option Nat
deriving Repr

def containerNameFor (app : Application) : JsString := js "aoox-app-" ++ app.appName

def nameOf (app : Application) (o : Option Override) : JsString :=
  (o.map Override.name).getD (containerNameFor app)

def hasHealthcheck (app : Application) : Bool := app.healthcheckPath.getD [] ≠ []

/-- `!!hostPort`. -/
def hasHostPort (app : Application) (o : Option Override) : Bool :=
  (match o with
    | some o => o.hostPort
    | none => app.hostPort).getD 0 ≠ 0

/-- Retries left in `startWithPortRetry`: only a 500 with a published port. -/
def startWithPortRetry (id : Nat) (hostPort : Bool) : Nat → Docker Unit
  | 0 => startContainer id
  | retries + 1 => attempt (startContainer id) fun e =>
      if hostPort && e = .error 500 then startWithPortRetry id hostPort retries else raise e

/-- The polls of `waitHealthy`, one outcome each; `late` is the deadline. -/
def waitGo (id : Nat) : List (Outcome Failure Health) → World →
    Result Failure Unit × World × List (Outcome Failure Health)
  | [], w => (.dead, w, [])
  | o :: os, w =>
    match inspectContainer id w [o] with
    | (.returned (some .healthy), w', _) => (.returned (), w', os)
    | (.returned (some .starting), w', _) => waitGo id os w'
    | (.returned (some .late), _, _) => (.thrown .timedOut, w, os)
    | (.returned (some .exited), w', _) => (.thrown .exited, w', os)
    | (.returned (some _), w', _) => (.thrown .unhealthy, w', os)
    | (.returned none, w', _) => (.thrown .exited, w', os)
    | (.thrown e, w', _) => (.thrown e, w', os)
    | (.dead, w', _) => (.dead, w', os)

/-- Polls the daemon's health status. -/
def waitHealthy (id : Nat) : Docker Unit := fun w os => waitGo id os w

/-- Removes a container that came up wrong, by id, else by its name. -/
def removeFailed (id : Option Nat) (name : JsString) : Docker Unit :=
  swallow do
    match id with
    | some id => removeContainer id
    | none =>
      match ← findContainerByName name with
      | some k => removeContainer k.id
      | none => pure ()

/-- The old container goes, or what a crashed blue/green deploy left under the
new one's name. -/
def clearName (blueGreen : Bool) (existing : Option Container) (createName : JsString) :
    Docker Unit :=
  if blueGreen then do
    match ← findContainerByName createName with
    | some stale => removeContainer stale.id
    | none => pure ()
  else
    match existing with
    | some k => removeContainer k.id
    | none => pure ()

/-- `if (c) await x`. -/
def runIf (c : Bool) (x : Docker Unit) : Docker Unit := if c then x else pure ()

/-- Start and health check of the created container. -/
def bringUp (app : Application) (o : Option Override) (id : Nat) : Docker Unit := do
  runIf (hasHealthcheck app) (swallow step) -- `lacksShell`
  startWithPortRetry id (hasHostPort app o) 3
  runIf (hasHealthcheck app) do
    step -- `log.step`
    waitHealthy id

/-- The old container of a blue/green swap is retired and `-next` takes its
name. -/
def switchOver (name : JsString) (id : Nat) (old : Container) : Docker Unit := do
  swallow (stopContainer old.id)
  removeContainer old.id
  renameContainer id name

/-- `recoverPrevious`: puts the previous image back through `replace`; gives the
error to throw. -/
def recoverPrevious (replace : JsString → Docker Nat) (app : Application) (failedRef : JsString)
    (cause : Failure) : Docker Failure :=
  match app.currentImage with
  | none => pure cause
  | some previous =>
    if previous = [] ∨ previous = failedRef then pure cause
    else attempt (replace previous >>= fun _ => pure (.recovered cause))
      fun _ => pure (.unrecovered cause)

/-- The `catch` block of `replaceContainer`. -/
def giveUp (replace : JsString → Docker Nat) (app : Application) (imageRef : JsString)
    (o : Option Override) (blueGreen : Bool) (existing : Option Container) (createName : JsString)
    (id : Option Nat) (err : Failure) : Docker Nat := do
  runIf o.isNone (removeFailed id createName)
  if !blueGreen && existing.isSome && o.isNone then
    recoverPrevious replace app imageRef err >>= raise
  else raise err

/-- The `try` block: the handler knows the id once there is one. -/
def startNew (app : Application) (imageRef : JsString) (o : Option Override)
    (createName : JsString) (handler : Option Nat → Failure → Docker Nat) : Docker Nat := do
  let id ← attempt (createContainer imageRef createName) (handler none)
  attempt (bringUp app o id >>= fun _ => pure id) (handler (some id))

/-- `if (blueGreen && existing)`. -/
def swap (name : JsString) (blueGreen : Bool) (existing : Option Container) (id : Nat) :
    Docker Unit :=
  match existing with
  | some old => runIf blueGreen (switchOver name id old)
  | none => pure ()

/-- Behind a passed health check. -/
def afterHealthy (app : Application) (name : JsString) (blueGreen : Bool)
    (existing : Option Container) (id : Nat) : Docker Unit :=
  runIf (hasHealthcheck app) do
    swap name blueGreen existing id
    step -- `log.step`

/-- Blue/green is possible when traffic arrives through the proxy only. -/
def isBlueGreen (app : Application) (o : Option Override) (existing : Option Container) : Bool :=
  hasHealthcheck app && !hasHostPort app o && o.isNone && existing.isSome

def nextName (name : JsString) : JsString := name ++ js "-next"

def createName (app : Application) (o : Option Override) (existing : Option Container) : JsString :=
  if isBlueGreen app o existing then nextName (nameOf app o) else nameOf app o

/-- `replaceContainer` with at most `depth` nested recoveries.  The steps before
and behind the first look at the daemon (environment, network, domains, mounts)
do not touch the containers and stand as one step each. -/
def replaceGo : Nat → Application → JsString → Option Override → Docker Nat
  | 0, _, _, _ => raise .tooDeep
  | depth + 1, app, imageRef, o => do
    step
    let existing ← findContainerByName (nameOf app o)
    step
    runIf o.isNone (swallow step) -- `swarmDeploy.remove`
    clearName (isBlueGreen app o existing) existing (createName app o existing)
    let id ← startNew app imageRef o (createName app o existing)
      (giveUp (fun previous => replaceGo depth app previous none) app imageRef o
        (isBlueGreen app o existing) existing (createName app o existing))
    afterHealthy app (nameOf app o) (isBlueGreen app o existing) existing id
    pure id

/-- `replaceContainer`.  A recovery deploys `currentImage`, and its own failure
finds nothing else to go back to, so one nested call is all there is. -/
def replaceContainer (app : Application) (imageRef : JsString) (o : Option Override) : Docker Nat :=
  replaceGo 2 app imageRef o

/-! ## One nested call is enough -/

variable {app : Application} {imageRef : JsString}

/-- A deployment of the current image goes back to nothing. -/
theorem recoverPrevious_self (replace replace' : JsString → Docker Nat)
    (h : app.currentImage = some imageRef) (cause : Failure) :
    recoverPrevious replace app imageRef cause = recoverPrevious replace' app imageRef cause := by
  simp [recoverPrevious, h]

theorem recoverPrevious_congr {replace replace' : JsString → Docker Nat}
    (h : ∀ previous, app.currentImage = some previous → replace previous = replace' previous)
    (imageRef : JsString) (cause : Failure) :
    recoverPrevious replace app imageRef cause = recoverPrevious replace' app imageRef cause := by
  rw [recoverPrevious, recoverPrevious]
  cases hc : app.currentImage with
  | none => rfl
  | some previous => simp only [h previous hc]

theorem replaceGo_congr {d e : Nat}
    (h : recoverPrevious (fun previous => replaceGo d app previous none) app imageRef =
      recoverPrevious (fun previous => replaceGo e app previous none) app imageRef)
    (o : Option Override) :
    replaceGo (d + 1) app imageRef o = replaceGo (e + 1) app imageRef o := by
  have hgive : giveUp (fun previous => replaceGo d app previous none) app imageRef o =
      giveUp (fun previous => replaceGo e app previous none) app imageRef o := by
    funext blueGreen existing name id err
    simp only [giveUp, h]
  simp only [replaceGo, hgive]

/-- **The recursion of `replaceContainer` and `recoverPrevious` ends**: allowing
more nested calls changes nothing. -/
theorem replaceGo_eq (d : Nat) (app : Application) (imageRef : JsString) (o : Option Override) :
    replaceGo (d + 2) app imageRef o = replaceContainer app imageRef o := by
  refine replaceGo_congr (funext fun cause => recoverPrevious_congr (fun previous hp => ?_) _ _) o
  exact replaceGo_congr (funext fun cause => recoverPrevious_self _ _ hp cause) none

/-! ## The container under each name -/

variable {w : World} {k : Container}

variable {l : Container}

theorem World.eq_of_name (hk : k ∈ w.containers) (hl : l ∈ w.containers)
    (h : k.name = l.name) : k = l :=
  List.inj_on_of_nodup_map (List.pairwise_map.mpr w.names) hk hl h

theorem World.eq_of_id (hk : k ∈ w.containers) (hl : l ∈ w.containers) (h : k.id = l.id) : k = l :=
  List.inj_on_of_nodup_map (List.pairwise_map.mpr w.ids) hk hl h

variable {name : JsString}

theorem named_eq_some : w.named name = some k ↔ k ∈ w.containers ∧ k.name = name := by
  constructor
  · intro h
    exact ⟨List.mem_of_find?_eq_some h, by simpa using List.find?_some h⟩
  · rintro ⟨hk, rfl⟩
    cases hn : w.named k.name with
    | none => exact absurd (List.find?_eq_none.mp hn k hk) (by simp)
    | some l =>
      have hl : l.name = k.name := by simpa using List.find?_some hn
      rw [World.eq_of_name (List.mem_of_find?_eq_some hn) hk hl]

theorem named_eq_none : w.named name = none ↔ ∀ k ∈ w.containers, k.name ≠ name := by
  rw [World.named, List.find?_eq_none]
  simp

variable {m : JsString}

/-- Containers under different names have different ids. -/
theorem id_ne_of_named {n : JsString} (hk : w.named m = some k) (hl : w.named n = some l)
    (hne : m ≠ n) : k.id ≠ l.id := by
  obtain ⟨hk', rfl⟩ := named_eq_some.mp hk
  obtain ⟨hl', rfl⟩ := named_eq_some.mp hl
  exact fun he => hne (by rw [World.eq_of_id hk' hl' he])

theorem named_remove (w : World) (id : Nat) (name : JsString) :
    (w.remove id).named name = (w.named name).filter fun k => k.id ≠ id := by
  refine ext fun k => ?_
  rw [named_eq_some, filter_eq_some_iff, named_eq_some]
  simp only [World.remove, List.mem_filter]
  tauto

theorem named_setState (w : World) (id : Nat) (running : Bool) (health : Health) (name : JsString) :
    (w.setState id running health).named name = (w.named name).map fun k =>
      if k.id = id then { k with running := running, health := health } else k := by
  rw [World.named, World.setState, World.modify, List.find?_map, World.named]
  congr 2
  funext k
  by_cases h : k.id = id <;> simp [h]

theorem named_add (w : World) (m image : JsString) (h : ∀ k ∈ w.containers, k.name ≠ m)
    (name : JsString) :
    (w.add m image h).named name =
      if m = name then some ⟨w.nextId, m, image, false, .starting⟩ else w.named name := by
  rw [World.named, World.add, List.find?_append]
  by_cases hm : m = name
  · subst hm
    rw [show w.containers.find? (fun k => k.name = m) = none from named_eq_none.mpr h]
    simp
  · simp [hm, World.named]

theorem named_rename (w : World) (id : Nat) (m : JsString) (h : ∀ k ∈ w.containers, k.name ≠ m)
    (hk : k ∈ w.containers) (hid : k.id = id) (name : JsString) :
    (w.rename id m h).named name =
      if m = name then some { k with name := m } else (w.named name).filter fun l => l.id ≠ id := by
  refine ext fun l => ?_
  rw [named_eq_some]
  simp only [World.rename, List.mem_map]
  by_cases hm : m = name
  · subst hm
    rw [if_pos rfl, some_inj]
    constructor
    · rintro ⟨⟨x, hx, rfl⟩, hname⟩
      by_cases hxi : x.id = id
      · obtain rfl : x = k := World.eq_of_id hx hk (hxi.trans hid.symm)
        simp [hid]
      · rw [if_neg hxi] at hname
        exact absurd hname (h x hx)
    · rintro rfl
      exact ⟨⟨k, hk, by simp [hid]⟩, rfl⟩
  · rw [if_neg hm, filter_eq_some_iff, named_eq_some]
    constructor
    · rintro ⟨⟨x, hx, rfl⟩, hname⟩
      by_cases hxi : x.id = id
      · rw [if_pos hxi] at hname
        exact absurd hname hm
      · rw [if_neg hxi] at hname ⊢
        exact ⟨⟨hx, hname⟩, by simpa using hxi⟩
    · rintro ⟨⟨hl, hname⟩, hne⟩
      exact ⟨⟨l, hl, by simp_all⟩, hname⟩

/-! ## Calls that return -/

variable {P : World → Prop}

theorem ensures_step : Ensures P step fun _ => P := ensures_call fun w _ _ w' hP heff => by
    obtain ⟨-, rfl⟩ := Prod.mk.inj (Except.ok.inj heff)
    exact hP

theorem keeps_step : Keeps P step := keeps_call fun w _ _ w' hP heff => by
    obtain ⟨-, rfl⟩ := Prod.mk.inj (Except.ok.inj heff)
    exact hP

theorem ensures_find (name : JsString) :
    Ensures P (findContainerByName name) fun found w => P w ∧ w.named name = found :=
  ensures_call fun w _ _ w' hP heff => by
    obtain ⟨rfl, rfl⟩ := Prod.mk.inj (Except.ok.inj heff)
    exact ⟨hP, rfl⟩

variable {id : Nat}

variable {Q : World → Prop} {effect : World → World}

theorem ensures_onContainer
    (h : ∀ w, P w → Q (effect w)) : Ensures P (onContainer id effect) fun _ => Q :=
  ensures_call fun w _ _ w' hP heff => by
    split at heff
    · obtain ⟨-, rfl⟩ := Prod.mk.inj (Except.ok.inj heff)
      exact h w hP
    · cases heff

theorem keeps_onContainer (h : ∀ w, P w → P (effect w)) : Keeps P (onContainer id effect) :=
  keeps_call fun w _ _ w' hP heff => by
    split at heff
    · obtain ⟨-, rfl⟩ := Prod.mk.inj (Except.ok.inj heff)
      exact h w hP
    · cases heff

theorem ensures_runIf {c : Bool} {x : Docker Unit} (hx : c = true → Ensures P x fun _ => Q)
    (hskip : c = false → ∀ w, P w → Q w) : Ensures P (runIf c x) fun _ => Q := by
  cases c with
  | true => exact hx rfl
  | false => exact ensures_pure () (hskip rfl)

/-- Container `k` is under name `m`, and all other names are as in `others`. -/
structure Placed (m : JsString) (others : JsString → Option Container) (k : Container)
    (w : World) : Prop where
  here : w.named m = some k
  elsewhere : ∀ n, n ≠ m → w.named n = others n

variable {others : JsString → Option Container}

/-- A change of the state of the placed container touches no other name. -/
theorem Placed.setState (h : Placed m others k w) (running : Bool) (health : Health) :
    Placed m others { k with running := running, health := health }
      (w.setState k.id running health) := by
  refine ⟨by rw [named_setState, h.here]; simp, fun n hn => ?_⟩
  rw [named_setState, ← h.elsewhere n hn]
  cases hl : w.named n with
  | none => rfl
  | some l =>
    have hne : l.id ≠ k.id := id_ne_of_named hl h.here hn
    simp [hne]

/-- The container this call created: its image under the name it was given. -/
def Fresh (m image : JsString) (others : JsString → Option Container) (id : Nat)
    (good : Container → Prop) (w : World) : Prop :=
  ∃ k, k.id = id ∧ k.image = image ∧ good k ∧ Placed m others k w

theorem ensures_create (image m : JsString) :
    Ensures (fun w => w.named = others) (createContainer image m)
      fun id w => others m = none ∧ Fresh m image others id (fun _ => True) w :=
  ensures_call fun w _ id w' hP heff => by
    split at heff
    · rename_i hfree
      obtain ⟨rfl, rfl⟩ := Prod.mk.inj (Except.ok.inj heff)
      refine ⟨hP ▸ named_eq_none.mpr hfree, ⟨w.nextId, m, image, false, .starting⟩, rfl, rfl,
        trivial, ?_, fun n hn => ?_⟩
      · rw [named_add, if_pos rfl]
      · rw [named_add, if_neg (Ne.symm hn), hP]
    · cases heff

variable {image : JsString} {good : Container → Prop}

theorem Fresh.setState {good' : Container → Prop} (h : Fresh m image others id good w)
    (running : Bool) (health : Health)
    (hgood : ∀ k : Container, good' { k with running := running, health := health }) :
    Fresh m image others id good' (w.setState id running health) := by
  obtain ⟨k, rfl, himage, -, hplaced⟩ := h
  exact ⟨{ k with running := running, health := health }, rfl, himage, hgood k,
    hplaced.setState running health⟩

theorem ensures_start : Ensures (Fresh m image others id good) (startContainer id)
      fun _ => Fresh m image others id fun k => k.running = true :=
  ensures_onContainer fun _ h => h.setState true .starting fun _ => rfl

theorem ensures_startWithPortRetry (hostPort : Bool) (retries : Nat) :
    Ensures (Fresh m image others id fun _ => True) (startWithPortRetry id hostPort retries)
      fun _ => Fresh m image others id fun k => k.running = true := by
  induction retries with
  | zero => exact ensures_start
  | succ retries ih =>
    refine ensures_start.attempt_keeps ?_ fun e => ?_
    · exact keeps_onContainer fun _ h => h.setState true .starting fun _ => trivial
    · split
      · exact ih
      · exact ensures_raise e

/-- A serving container: running, and healthy where that is checked. -/
def Serves (app : Application) (k : Container) : Prop :=
  k.running = true ∧ (hasHealthcheck app = true → k.health = .healthy)

/-- What a look at a container has seen is the state it has come to. -/
theorem inspect_returned {w' : World} {o : Outcome Failure Health}
    {rest : List (Outcome Failure Health)} {h : Health}
    (hrun : inspectContainer id w [o] = (.returned (some h), w', rest)) :
    w' = w.setState id (h ≠ .exited) h := by
  cases o with
  | ok answer =>
    simp only [inspectContainer, call] at hrun
    split at hrun
    · rename_i seen w₁ heff
      simp only [Prod.mk.injEq, Result.returned.injEq] at hrun
      obtain ⟨rfl, rfl, -⟩ := hrun
      split at heff
      · obtain ⟨hseen, rfl⟩ := Prod.mk.inj (Except.ok.inj heff)
        obtain rfl := some.inj hseen
        rfl
      · cases heff
    · cases hrun
  | failed e applied => cases hrun
  | died applied => cases hrun

theorem ensures_waitHealthy : Ensures (Fresh m image others id good) (waitHealthy id)
      fun _ => Fresh m image others id fun k => k.running = true ∧ k.health = .healthy := by
  intro w os
  change ∀ a w' os', Fresh m image others id good w → waitGo id os w = (.returned a, w', os') → _
  -- each poll leaves the container where it is and uses one outcome
  induction os generalizing w good with
  | nil => intro a w' os' _ hrun; cases hrun
  | cons o os ih =>
    intro a w' os' hfresh hrun
    rw [waitGo] at hrun
    split at hrun
    · rename_i w₁ rest hlook
      simp only [Prod.mk.injEq] at hrun
      obtain ⟨-, rfl, -⟩ := hrun
      rw [inspect_returned hlook]
      exact hfresh.setState _ _ fun _ => ⟨rfl, rfl⟩
    · rename_i w₁ rest hlook
      have hpolled : Fresh m image others id (fun _ => True) w₁ := by
        rw [inspect_returned hlook]
        exact hfresh.setState _ _ fun _ => trivial
      exact ih w₁ a w' os' hpolled hrun
    all_goals cases hrun

theorem ensures_bringUp (id : Nat) (app : Application) (o : Option Override) :
    Ensures (Fresh m image others id fun _ => True) (bringUp app o id)
      fun _ => Fresh m image others id (Serves app) := by
  refine Ensures.bind (ensures_runIf (fun _ => keeps_step.swallow) fun _ _ h => h) fun _ => ?_
  refine Ensures.bind (ensures_startWithPortRetry _ _) fun _ => ?_
  refine ensures_runIf (fun _ => Ensures.bind ensures_step fun _ => ?_) fun hno w hw => ?_
  · refine ensures_waitHealthy.conseq (fun _ h => h) fun _ w hw => ?_
    obtain ⟨k, hid, himage, ⟨hrun, hhealthy⟩, hplaced⟩ := hw
    exact ⟨k, hid, himage, ⟨hrun, fun _ => hhealthy⟩, hplaced⟩
  · obtain ⟨k, hid, himage, hrun, hplaced⟩ := hw
    exact ⟨k, hid, himage, ⟨hrun, fun hyes => by rw [hno] at hyes; cases hyes⟩, hplaced⟩

theorem giveUp_never (replace : JsString → Docker Nat) (app : Application) (imageRef : JsString)
    (o : Option Override) (blueGreen : Bool) (existing : Option Container) (name : JsString)
    (id : Option Nat) (err : Failure) :
    Ensures (fun _ => True) (giveUp replace app imageRef o blueGreen existing name id err)
      fun _ _ => False := by
  refine Ensures.bind ensures_true fun _ => ?_
  split
  · exact Ensures.bind ensures_true fun e => ensures_raise e
  · exact ensures_raise err

/-- **What a `try` block that ends well leaves behind.** -/
theorem ensures_startNew (app : Application) (imageRef : JsString) (o : Option Override)
    (m : JsString) {handler : Option Nat → Failure → Docker Nat}
    (hh : ∀ id e, Ensures (fun _ => True) (handler id e) fun _ _ => False) :
    Ensures (fun w => w.named = others) (startNew app imageRef o m handler)
      fun id w => Fresh m imageRef others id (Serves app) w := by
  refine Ensures.bind ((ensures_create imageRef m).attempt (hh none)) fun id => ?_
  refine Ensures.attempt ?_ (hh (some id))
  refine Ensures.bind ((ensures_bringUp id app o).conseq (fun _ h => h.2) fun _ _ h => h) fun _ => ?_
  exact ensures_pure id fun _ h => h

/-! ## Clearing the name and switching over -/

/-- All names but one. -/
def without (f : JsString → Option Container) (m : JsString) : JsString → Option Container :=
  fun n => if n = m then none else f n

variable {f : JsString → Option Container}

theorem named_remove_found (hw : w.named = f)
    (hk : f m = some k) : (w.remove k.id).named = without f m := by
  funext n
  rw [named_remove, without]
  by_cases hn : n = m
  · subst hn
    rw [hw, hk]
    simp [Option.filter]
  · rw [if_neg hn, hw]
    cases hl : f n with
    | none => rfl
    | some l =>
      have hne : l.id ≠ k.id := id_ne_of_named (w := w) (hw ▸ hl) (hw ▸ hk) hn
      simp [Option.filter, hne]

theorem without_eq_self (h : f m = none) : without f m = f := by
  funext n
  by_cases hn : n = m
  · simp [without, hn, h]
  · simp [without, hn]

/-- The name a new container is created under is free, all others are as they were. -/
theorem ensures_clearName (blueGreen : Bool) {existing : Option Container}
    (hexisting : blueGreen = false → f m = existing) :
    Ensures (fun w => w.named = f) (clearName blueGreen existing m)
      fun _ w => w.named = without f m := by
  have hremove : ∀ k, f m = some k →
      Ensures (fun w => w.named = f) (removeContainer k.id) fun _ w => w.named = without f m :=
    fun k hk => ensures_onContainer fun w hw => named_remove_found hw hk
  have hskip : f m = none →
      Ensures (fun w => w.named = f) (pure () : Docker Unit) fun _ w => w.named = without f m :=
    fun hk => ensures_pure () fun w hw => by rw [without_eq_self hk, hw]
  cases blueGreen with
  | false =>
    have hf := hexisting rfl
    cases existing with
    | none => exact hskip hf
    | some k => exact hremove k hf
  | true =>
    refine Ensures.bind (ensures_find m) fun found => ?_
    cases found with
    | none =>
      intro w os a w' os' hP hrun
      exact hskip (hP.1 ▸ hP.2) w os a w' os' hP.1 hrun
    | some k =>
      intro w os a w' os' hP hrun
      exact hremove k (hP.1 ▸ hP.2) w os a w' os' hP.1 hrun

theorem nextName_ne (name : JsString) : nextName name ≠ name := by
  intro h
  have hlen := congrArg List.length h
  rw [nextName, List.length_append] at hlen
  have : (js "-next").length = 5 := by decide
  omega

/-- What a call that returned has left under the two names of the application. -/
def Done (app : Application) (imageRef name : JsString) (next : Option Container) (id : Nat)
    (w : World) : Prop :=
  ∃ k, k.id = id ∧ k.image = imageRef ∧ Serves app k ∧ w.named name = some k ∧
    w.named (nextName name) = next

/-- Both containers of a blue/green swap. -/
def Beside (app : Application) (imageRef name : JsString) (id oldId : Nat) (w : World) : Prop :=
  ∃ k old, k.id = id ∧ k.image = imageRef ∧ Serves app k ∧ w.named (nextName name) = some k ∧
    old.id = oldId ∧ w.named name = some old

theorem Beside.stop {oldId : Nat} (h : Beside app imageRef name id oldId w) (running : Bool)
    (health : Health) : Beside app imageRef name id oldId (w.setState oldId running health) := by
  obtain ⟨k, old, hid, himage, hserves, hnext, rfl, hold⟩ := h
  have hne : k.id ≠ old.id := id_ne_of_named hnext hold (nextName_ne name)
  refine ⟨k, { old with running := running, health := health }, hid, himage, hserves, ?_, rfl, ?_⟩
  · rw [named_setState, hnext]
    simp [hne]
  · rw [named_setState, hold]
    simp

theorem ensures_switchOver {old : Container} :
    Ensures (Beside app imageRef name id old.id) (switchOver name id old)
      fun _ => Done app imageRef name none id := by
  have hstop : Keeps (Beside app imageRef name id old.id) (stopContainer old.id) :=
    keeps_onContainer fun w hw => hw.stop false .exited
  -- the old container is gone and the new one still has its first name
  have hremove : Ensures (Beside app imageRef name id old.id) (removeContainer old.id)
      fun _ w => ∃ k, k.id = id ∧ k.image = imageRef ∧ Serves app k ∧
        w.named (nextName name) = some k ∧ w.named name = none := by
    refine ensures_onContainer fun w hw => ?_
    obtain ⟨k, e, hid, himage, hserves, hnext, heid, hold⟩ := hw
    have hne : k.id ≠ old.id := heid ▸ id_ne_of_named hnext hold (nextName_ne name)
    refine ⟨k, hid, himage, hserves, ?_, ?_⟩
    · rw [named_remove, hnext]
      simp [Option.filter, hne]
    · rw [named_remove, hold]
      simp [Option.filter, heid]
  refine Ensures.bind hstop.swallow fun _ => Ensures.bind hremove fun _ => ?_
  refine ensures_call fun w _ _ w' hw heff => ?_
  obtain ⟨k, hid, himage, hserves, hnext, -⟩ := hw
  split at heff
  · cases heff
  split at heff
  · rename_i hfree
    obtain ⟨-, rfl⟩ := Prod.mk.inj (Except.ok.inj heff)
    have hmem := (named_eq_some.mp hnext).1
    refine ⟨{ k with name := name }, hid, himage, hserves, ?_, ?_⟩
    · rw [named_rename w id name hfree hmem hid, if_pos rfl]
    · rw [named_rename w id name hfree hmem hid, if_neg (nextName_ne name).symm, hnext]
      simp [Option.filter, hid]
  · cases heff

/-- **What a successful `replaceContainer` leaves behind**: the new container
under the application's name, and under the `-next` name nothing after a
blue/green swap, but what was there before otherwise. -/
theorem ensures_replaceGo (depth : Nat) (app : Application) (imageRef : JsString) :
    Ensures (fun w => w.named = f) (replaceGo (depth + 1) app imageRef none)
      fun id => Done app imageRef (nameOf app none)
        (if isBlueGreen app none (f (nameOf app none)) then none
          else f (nextName (nameOf app none))) id := by
  generalize hname : nameOf app none = name
  rw [replaceGo, hname]
  refine Ensures.bind ensures_step fun _ => Ensures.bind (ensures_find name) fun existing => ?_
  by_cases hexisting : f name = existing
  swap
  · rintro w os a w' os' ⟨rfl, hfound⟩
    exact absurd hfound hexisting
  subst hexisting
  refine Ensures.bind (Q := fun _ w => w.named = f)
    (ensures_step.conseq (fun _ h => h.1) fun _ _ h => h) fun _ => ?_
  refine Ensures.bind (ensures_runIf (fun _ => keeps_step.swallow) fun _ _ h => h) fun _ => ?_
  have hplain : isBlueGreen app none (f name) = false →
      f (createName app none (f name)) = f name := by
    intro h
    rw [createName, h, hname]
    rfl
  refine Ensures.bind (ensures_clearName _ hplain) fun _ => ?_
  refine Ensures.bind (ensures_startNew app imageRef none _ fun id e =>
    giveUp_never _ _ _ _ _ _ _ id e) fun id => ?_
  refine Ensures.bind (Q := fun _ => Done app imageRef name
    (if isBlueGreen app none (f name) then none else f (nextName name)) id) ?_
    fun _ => ensures_pure id fun _ h => h
  cases hblue : isBlueGreen app none (f name) with
  | false =>
    have hcreate : createName app none (f name) = name := by
      rw [createName, hblue, hname]
      rfl
    rw [hcreate]
    have hdone : ∀ w, Fresh name imageRef (without f name) id (Serves app) w →
        Done app imageRef name (f (nextName name)) id w := by
      rintro w ⟨k, hid, himage, hserves, hplaced⟩
      refine ⟨k, hid, himage, hserves, hplaced.here, ?_⟩
      rw [hplaced.elsewhere _ (nextName_ne name), without, if_neg (nextName_ne name)]
    refine ensures_runIf (fun _ => Ensures.bind ?_ fun _ => ensures_step) fun _ => hdone
    cases f name with
    | none => exact ensures_pure () hdone
    | some old => exact ensures_pure () hdone
  | true =>
    have hcreate : createName app none (f name) = nextName name := by
      rw [createName, hblue, hname]
      rfl
    rw [hcreate]
    simp only [isBlueGreen, Bool.and_eq_true] at hblue
    obtain ⟨⟨⟨hcheck, -⟩, -⟩, hsome⟩ := hblue
    obtain ⟨old, hold⟩ := isSome_iff_exists.mp hsome
    have hbeside : ∀ w, Fresh (nextName name) imageRef (without f (nextName name)) id (Serves app) w →
        Beside app imageRef name id old.id w := by
      rintro w ⟨k, hid, himage, hserves, hplaced⟩
      refine ⟨k, old, hid, himage, hserves, hplaced.here, rfl, ?_⟩
      rw [hplaced.elsewhere _ (nextName_ne name).symm, without, if_neg (nextName_ne name).symm, hold]
    refine ensures_runIf (fun _ => Ensures.bind ?_ fun _ => ensures_step) fun hno => ?_
    · rw [hold]
      exact ensures_switchOver.conseq hbeside fun _ _ h => h
    · rw [hcheck] at hno
      cases hno

/-! ## Sequences of deployments -/

/-- One call of `replaceContainer` for the application, with what it meets. -/
structure Deployment where
  app : Application
  imageRef : JsString
  outcomes : List (Outcome Failure Health)

/-- The daemon behind a deployment, whatever its end. -/
def deploy (w : World) (d : Deployment) : World :=
  (replaceContainer d.app d.imageRef none w d.outcomes).2.1

def OfApp (app : Application) (k : Container) : Prop :=
  k.name = containerNameFor app ∨ k.name = nextName (containerNameFor app)

/-- Exactly one container of the application exists; it serves, from `imageRef`. -/
def OneServing (app : Application) (imageRef : JsString) (w : World) : Prop :=
  ∃ k ∈ w.containers, OfApp app k ∧ (∀ l ∈ w.containers, OfApp app l → l = k) ∧
    Serves app k ∧ k.image = imageRef

instance (app : Application) (k : Container) : Decidable (Serves app k) :=
  inferInstanceAs (Decidable (k.running = true ∧ (hasHealthcheck app = true → k.health = .healthy)))

instance (app : Application) (k : Container) : Decidable (OfApp app k) :=
  inferInstanceAs (Decidable (k.name = containerNameFor app ∨
    k.name = nextName (containerNameFor app)))

instance (app : Application) (imageRef : JsString) (w : World) :
    Decidable (OneServing app imageRef w) :=
  inferInstanceAs (Decidable (∃ k ∈ w.containers, OfApp app k ∧
    (∀ l ∈ w.containers, OfApp app l → l = k) ∧ Serves app k ∧ k.image = imageRef))

/-- The call takes the plain path while a `-next` container exists. -/
def LeavesNext (app : Application) (w : World) : Prop :=
  isBlueGreen app none (w.named (containerNameFor app)) = false ∧
    (w.named (nextName (containerNameFor app))).isSome = true

theorem oneServing_iff {next : Option Container}
    (h : Done app imageRef (containerNameFor app) next id w) :
    OneServing app imageRef w ↔ next = none := by
  obtain ⟨k, -, himage, hserves, hk, hnext⟩ := h
  obtain ⟨hmem, hkname⟩ := named_eq_some.mp hk
  constructor
  · rintro ⟨l, -, -, honly, -, -⟩
    cases next with
    | none => rfl
    | some n =>
      obtain ⟨hn, hnname⟩ := named_eq_some.mp hnext
      have hkl := honly k hmem (.inl hkname)
      have hnl := honly n hn (.inr hnname)
      exact absurd (hnname.symm.trans ((congrArg Container.name (hnl.trans hkl.symm)).trans hkname))
        (nextName_ne _)
  · rintro rfl
    refine ⟨k, hmem, .inl hkname, fun l hl hof => ?_, hserves, himage⟩
    rcases hof with hlname | hlname
    · exact World.eq_of_name hl hmem (hlname.trans hkname.symm)
    · exact absurd hlname (named_eq_none.mp hnext l hl)

/-- **When a successful deployment leaves one serving container.**  After any
sequence of deployments, each with any failures and ended anywhere, a call that
returns leaves exactly one container of the application, serving and built from
its image, if and only if it did not take the plain path beside a `-next`. -/
theorem oneServing_of_returned (w₀ : World) (earlier : List Deployment) (app : Application)
    (imageRef : JsString) (os os' : List (Outcome Failure Health)) (id : Nat) (w' : World)
    (h : replaceContainer app imageRef none (earlier.foldl deploy w₀) os =
      (.returned id, w', os')) :
    OneServing app imageRef w' ↔ ¬ LeavesNext app (earlier.foldl deploy w₀) := by
  generalize earlier.foldl deploy w₀ = w at h ⊢
  have hdone := ensures_replaceGo 1 app imageRef w os id w' os' rfl h
  rw [oneServing_iff hdone, LeavesNext]
  change (if isBlueGreen app none (w.named (containerNameFor app)) then none
    else w.named (nextName (containerNameFor app))) = none ↔ _
  cases isBlueGreen app none (w.named (containerNameFor app)) with
  | true => simp
  | false => simp

/-! ## A `-next` left behind -/

def emptyDaemon : World := ⟨[], 0, .nil, .nil, by simp⟩

def web : Application := ⟨js "web", some (js "/health"), none, none⟩

/-- Every call succeeds and the first look finds the container healthy. -/
def allWell : List (Outcome Failure Health) := List.replicate 16 (.ok .healthy)

def first : Deployment := ⟨web, js "web:1", allWell⟩

/-- A second one whose process dies before the rename. -/
def diedBeforeRename : Deployment :=
  ⟨web, js "web:2", List.replicate 12 (.ok .healthy) ++ [.died none]⟩

theorem eq_of_returned {x : Result Failure Nat × World × List (Outcome Failure Health)}
    (h : x.1 = .returned id) : x = (.returned id, x.2.1, x.2.2) := Prod.ext h rfl

theorem oneServing_second :
    ∃ id w' os', replaceContainer web (js "web:2") none ([first].foldl deploy emptyDaemon) allWell =
        (.returned id, w', os') ∧ OneServing web (js "web:2") w' := by
  have hrun : (replaceContainer web (js "web:2") none ([first].foldl deploy emptyDaemon) allWell).1 =
      .returned 1 := by decide +kernel
  refine ⟨_, _, _, eq_of_returned hrun, (oneServing_of_returned emptyDaemon [first] web (js "web:2")
    allWell _ _ _ (eq_of_returned hrun)).mpr fun hleaves => absurd hleaves.1 (by decide +kernel)⟩

/-- The next deployment finds no container under the application's own name,
starts one there and leaves `-next` serving beside it. -/
theorem two_serving :
    ∃ id w' os', replaceContainer web (js "web:3") none
        ([first, diedBeforeRename].foldl deploy emptyDaemon) allWell = (.returned id, w', os') ∧
      ¬ OneServing web (js "web:3") w' := by
  have hrun : (replaceContainer web (js "web:3") none
      ([first, diedBeforeRename].foldl deploy emptyDaemon) allWell).1 = .returned 2 := by
    decide +kernel
  exact ⟨_, _, _, eq_of_returned hrun, by decide +kernel⟩

end Aoox.Containers
