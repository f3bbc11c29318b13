import Aoox.ReplaceContainer

/-! # A replacement that fails

The recovery in the `catch` block of `replaceContainer` calls `replaceContainer` again.
`replaceWith` is one such call with the inner one left open: the function satisfies its
own equation (`replaceContainer_eq`), and what the innermost call would do does not matter
(`replaceContainer_unrolled`), since a deployment of the current image has nothing else to
go back to.

A blue/green replacement touches the container under the application's own name only in
its switch-over.  Up to there it removes and inspects containers under the `-next` name,
whatever fails (`leaves_upToSwitch`).
-/
namespace Aoox.Containers

open Faults

/-! ## One call with the inner one left open -/

/-- `replaceContainer` up to its switch-over, with the call that `recoverPrevious` makes. -/
def upToSwitch (replace : JsString → Docker Nat) (app : Application) (imageRef : JsString)
    (o : Option Override) : Docker (Option Container × Nat) := do
  step
  let existing ← findContainerByName (nameOf app o)
  step
  runIf o.isNone (swallow step)
  clearName (isBlueGreen app o existing) existing (createName app o existing)
  let id ← startNew app imageRef o (createName app o existing)
    (giveUp replace app imageRef o (isBlueGreen app o existing) existing
      (createName app o existing))
  pure (existing, id)

def replaceWith (replace : JsString → Docker Nat) (app : Application) (imageRef : JsString)
    (o : Option Override) : Docker Nat := do
  let (existing, id) ← upToSwitch replace app imageRef o
  afterHealthy app (nameOf app o) (isBlueGreen app o existing) existing id
  pure id

theorem replaceGo_succ (d : Nat) (app : Application) (imageRef : JsString) (o : Option Override) :
    replaceGo (d + 1) app imageRef o =
      replaceWith (fun previous => replaceGo d app previous none) app imageRef o := by
  simp only [replaceGo, replaceWith, upToSwitch, bind_assoc, pure_bind]

/-- **The recursion is that of the source**: the inner call is `replaceContainer` again. -/
theorem replaceContainer_eq (app : Application) (imageRef : JsString) (o : Option Override) :
    replaceContainer app imageRef o =
      replaceWith (fun previous => replaceContainer app previous none) app imageRef o := by
  rw [← replaceGo_eq 1, replaceGo_succ]
  rfl

variable {app : Application} {imageRef : JsString}

theorem replaceWith_congr {replace replace' : JsString → Docker Nat}
    (h : recoverPrevious replace app imageRef = recoverPrevious replace' app imageRef)
    (o : Option Override) : replaceWith replace app imageRef o =
      replaceWith replace' app imageRef o := by
  have hgive : giveUp replace app imageRef o = giveUp replace' app imageRef o := by
    funext blueGreen existing name id err
    simp only [giveUp, h]
  simp only [replaceWith, upToSwitch, hgive]

/-- **One nested call is all there is**: whatever a call inside it would do, it is not made. -/
theorem replaceContainer_unrolled (replace : JsString → Docker Nat) (app : Application)
    (imageRef : JsString) (o : Option Override) :
    replaceContainer app imageRef o =
      replaceWith (fun previous => replaceWith replace app previous none) app imageRef o := by
  rw [replaceContainer, replaceGo_succ]
  refine replaceWith_congr (funext fun cause => recoverPrevious_congr (fun previous hp => ?_) _ _) o
  rw [replaceGo_succ]
  exact replaceWith_congr (funext fun cause => recoverPrevious_self _ _ hp cause) none

/-! ## The container under the application's own name -/

def Holds (name : JsString) (old : Container) (w : World) : Prop := w.named name = some old

variable {name : JsString} {old : Container} {w : World} {id : Nat}

theorem Holds.setState (h : Holds name old w) (hid : id ≠ old.id) (running : Bool)
    (health : Health) : Holds name old (w.setState id running health) := by
  rw [Holds, named_setState, show w.named name = some old from h]
  simp [hid.symm]

theorem Holds.remove (h : Holds name old w) (hid : id ≠ old.id) : Holds name old (w.remove id) := by
  rw [Holds, named_remove, show w.named name = some old from h]
  simp [Option.filter, hid.symm]

theorem keeps_removeOther (hid : id ≠ old.id) : Keeps (Holds name old) (removeContainer id) :=
  keeps_onContainer fun _ h => h.remove hid

theorem keeps_startOther (hid : id ≠ old.id) : Keeps (Holds name old) (startContainer id) :=
  keeps_onContainer fun _ h => h.setState hid true .starting

variable {P : World → Prop}

theorem keeps_find (m : JsString) : Keeps P (findContainerByName m) :=
  keeps_call fun w _ _ w' hP heff => by
    obtain ⟨-, rfl⟩ := Prod.mk.inj (Except.ok.inj heff)
    exact hP

variable {m : JsString}

theorem ensures_findOther (hm : m ≠ name) : Ensures (Holds name old) (findContainerByName m)
      fun found w => Holds name old w ∧ ∀ k ∈ found, k.id ≠ old.id := by
  refine (ensures_find m).conseq (fun _ h => h) fun found w hw => ⟨hw.1, fun k hk => ?_⟩
  have hfound : w.named m = some k := hw.2.trans hk
  exact id_ne_of_named hfound hw.1 hm

variable {image : JsString}

theorem keeps_create : Keeps (Holds name old) (createContainer image m) :=
  keeps_call fun w _ _ w' hP heff => by
    split at heff
    · rename_i hfree
      obtain ⟨-, rfl⟩ := Prod.mk.inj (Except.ok.inj heff)
      obtain ⟨hmem, hname⟩ := named_eq_some.mp hP
      have hne : m ≠ name := fun h => hfree old hmem (hname.trans h.symm)
      rw [Holds, named_add, if_neg hne]
      exact hP
    · cases heff

/-- A new container has a new id. -/
theorem ensures_createOther : Ensures (Holds name old) (createContainer image m)
      fun id w => Holds name old w ∧ id ≠ old.id := by
  intro w os id w' os' hP hrun
  refine ⟨keeps_create.ensures w os id w' os' hP hrun, ?_⟩
  have hnew : Ensures (fun v => v = w) (createContainer image m) fun id _ => id = w.nextId :=
    ensures_call fun v _ id v' hv heff => by
      split at heff
      · obtain ⟨rfl, -⟩ := Prod.mk.inj (Except.ok.inj heff)
        rw [hv]
      · cases heff
  rw [hnew w os id w' os' rfl hrun]
  exact (Nat.ne_of_lt (w.fresh old (named_eq_some.mp hP).1)).symm

theorem keeps_startWithPortRetry (hid : id ≠ old.id) (hostPort : Bool) (retries : Nat) :
    Keeps (Holds name old) (startWithPortRetry id hostPort retries) := by
  induction retries with
  | zero => exact keeps_startOther hid
  | succ retries ih =>
    refine Leaves.attempt (keeps_startOther hid) fun e => ?_
    split
    · exact ih
    · exact keeps_raise e

theorem keeps_inspectOther (hid : id ≠ old.id) : Keeps (Holds name old) (inspectContainer id) :=
  keeps_call fun w health _ w' hP heff => by
    split at heff
    · obtain ⟨-, rfl⟩ := Prod.mk.inj (Except.ok.inj heff)
      exact hP.setState hid _ _
    · obtain ⟨-, rfl⟩ := Prod.mk.inj (Except.ok.inj heff)
      exact hP

theorem keeps_waitHealthy (hid : id ≠ old.id) : Keeps (Holds name old) (waitHealthy id) := by
  intro w os
  change Holds name old w → Holds name old (waitGo id os w).2.1
  induction os generalizing w with
  | nil => exact fun hP => hP
  | cons o os ih =>
    intro hP
    have hlook : Holds name old (inspectContainer id w [o]).2.1 := keeps_inspectOther hid w [o] hP
    rw [waitGo]
    split <;> rename_i heq <;> rw [heq] at hlook
    · exact hlook
    · exact ih _ hlook
    · exact hP
    all_goals exact hlook

theorem keeps_runIf {x : Docker Unit} (c : Bool) (hx : Keeps P x) : Keeps P (runIf c x) := by
  cases c with
  | true => exact hx
  | false => exact fun _ _ hP => hP

theorem keeps_bringUp (hid : id ≠ old.id) (app : Application) (o : Option Override) :
    Keeps (Holds name old) (bringUp app o id) := by
  refine Keeps.bind (keeps_runIf _ (keeps_swallow keeps_step)) fun _ => ?_
  refine Keeps.bind (keeps_startWithPortRetry hid _ 3) fun _ => ?_
  exact keeps_runIf _ (Keeps.bind keeps_step fun _ => keeps_waitHealthy hid)

/-! ## Up to the switch-over -/

theorem keeps_removeFound (hm : m ≠ name) : Keeps (Holds name old) (do
      match ← findContainerByName m with
      | some k => removeContainer k.id
      | none => pure ()) := by
  refine Leaves.bind (keeps_find m) (ensures_findOther hm) fun found => ?_
  cases found with
  | none => exact leaves_pure () fun _ h => h.1
  | some k => exact fun w os h => keeps_removeOther (h.2 k rfl) w os h.1

theorem keeps_removeFailed (hm : m ≠ name) (created : Option Nat)
    (hid : ∀ id ∈ created, id ≠ old.id) : Keeps (Holds name old) (removeFailed created m) := by
  refine keeps_swallow ?_
  cases created with
  | some id => exact keeps_removeOther (hid id rfl)
  | none => exact keeps_removeFound hm

/-- The `catch` block of a blue/green replacement has nothing to recover. -/
theorem keeps_giveUp (replace : JsString → Docker Nat) (app : Application) (imageRef : JsString)
    (hm : m ≠ name) (existing : Option Container) (created : Option Nat)
    (hid : ∀ id ∈ created, id ≠ old.id) (err : Failure) :
    Keeps (Holds name old) (giveUp replace app imageRef none true existing m created err) :=
  Keeps.bind (keeps_runIf _ (keeps_removeFailed hm created hid)) fun _ => keeps_raise err

theorem keeps_startNew (replace : JsString → Docker Nat) (app : Application) (imageRef : JsString)
    (hm : m ≠ name) (existing : Option Container) :
    Keeps (Holds name old)
      (startNew app imageRef none m (giveUp replace app imageRef none true existing m)) := by
  have hcreate : Keeps (Holds name old)
      (attempt (createContainer imageRef m) (giveUp replace app imageRef none true existing m none)) :=
    Leaves.attempt keeps_create (keeps_giveUp replace app imageRef hm existing none (by simp))
  refine Leaves.bind hcreate (ensures_createOther.attempt (giveUp_never _ _ _ _ _ _ _ _))
    fun id => ?_
  intro w os h
  refine Leaves.attempt ?_ (keeps_giveUp replace app imageRef hm existing (some id) ?_) w os h.1
  · exact Keeps.bind (keeps_bringUp h.2 app none) fun _ => leaves_pure id fun _ hP => hP
  · simpa using h.2

/-- **Whatever fails before the switch-over, the old container stays.** -/
theorem keeps_upToSwitch (replace : JsString → Docker Nat) (imageRef : JsString) {old : Container}
    (hblue : isBlueGreen app none (some old) = true) :
    Keeps (Holds (containerNameFor app) old) (upToSwitch replace app imageRef none) := by
  have hnext : createName app none (some old) ≠ containerNameFor app := by
    rw [createName, if_pos hblue]
    exact nextName_ne _
  refine Keeps.bind keeps_step fun _ => ?_
  refine Leaves.bind (keeps_find _) (ensures_find _) fun existing w os h => ?_
  obtain rfl : some old = existing := h.1.symm.trans h.2
  refine Keeps.bind keeps_step (fun _ => ?_) w os h.1
  refine Keeps.bind (keeps_runIf _ (keeps_swallow keeps_step)) fun _ => ?_
  rw [hblue]
  refine Keeps.bind (keeps_removeFound hnext) fun _ => ?_
  exact Keeps.bind (keeps_startNew replace app imageRef hnext _) fun id =>
    leaves_pure _ fun _ hP => hP

/-! ## A failed rolling replacement -/

/-- The replacement ends before its switch-over: an error, or the death of the process. -/
def FailsBeforeSwitch (app : Application) (imageRef : JsString) (w : World)
    (os : List (Outcome Failure Health)) : Prop :=
  ∀ r, (upToSwitch (fun previous => replaceContainer app previous none) app imageRef none w os).1 ≠
    .returned r

/-- A failure before the switch-over is a failure of the whole replacement. -/
theorem replaceContainer_of_fails {w : World} {os : List (Outcome Failure Health)}
    (h : FailsBeforeSwitch app imageRef w os) :
    (∀ id, (replaceContainer app imageRef none w os).1 ≠ .returned id) ∧
      (replaceContainer app imageRef none w os).2.1 =
        (upToSwitch (fun previous => replaceContainer app previous none) app imageRef none w os).2.1 := by
  rw [replaceContainer_eq, replaceWith]
  rcases hrun : upToSwitch (fun previous => replaceContainer app previous none) app imageRef none w os
    with ⟨_ | _ | _, w', os'⟩
  · exact absurd (congrArg Prod.fst hrun) (h _)
  · simp [bind, hrun]
  · simp [bind, hrun]

/-- **A failed rolling replacement leaves the old container serving, and the recursion ends.**
The function meets its own equation, the call in the recovery being the function itself.  What
the innermost call of a recovery would do does not matter, so there is at most one nested
call; and whatever a blue/green replacement has met, if it fails before its switch-over, the
container under the application's own name is the one that was there, running as it was. -/
theorem rolling_failure_keeps_old (app : Application) (imageRef : JsString) :
    (∀ o : Option Override, replaceContainer app imageRef o =
      replaceWith (fun previous => replaceContainer app previous none) app imageRef o) ∧
    (∀ (replace : JsString → Docker Nat) (o : Option Override),
      replaceContainer app imageRef o =
        replaceWith (fun previous => replaceWith replace app previous none) app imageRef o) ∧
    ∀ (w : World) (os : List (Outcome Failure Health)) (old : Container),
      w.named (containerNameFor app) = some old → isBlueGreen app none (some old) = true →
      FailsBeforeSwitch app imageRef w os →
      (∀ id, (replaceContainer app imageRef none w os).1 ≠ .returned id) ∧
        (replaceContainer app imageRef none w os).2.1.named (containerNameFor app) = some old := by
  refine ⟨replaceContainer_eq app imageRef,
    fun replace o => replaceContainer_unrolled replace app imageRef o, ?_⟩
  intro w os old hold hblue hfails
  obtain ⟨hend, hworld⟩ := replaceContainer_of_fails hfails
  refine ⟨hend, ?_⟩
  rw [hworld]
  exact keeps_upToSwitch _ imageRef hblue w os hold

/-- The daemon beside a running `web:1`, and a new image whose health check never passes. -/
def oneWeb : World := [first].foldl deploy emptyDaemon

def neverHealthy : List (Outcome Failure Health) := List.replicate 16 (.ok .unhealthy)

theorem rolling_failure_keeps_old_unhealthy :
    ∃ old, oneWeb.named (containerNameFor web) = some old ∧ old.running = true ∧
      (replaceContainer web (js "web:2") none oneWeb neverHealthy).2.1.named
        (containerNameFor web) = some old := by
  have hold : oneWeb.named (containerNameFor web) =
      some ⟨0, containerNameFor web, js "web:1", true, .healthy⟩ := by decide +kernel
  have hfailed : (upToSwitch (fun previous => replaceContainer web previous none) web (js "web:2")
      none oneWeb neverHealthy).1 = .thrown .unhealthy := by decide +kernel
  have hfails : FailsBeforeSwitch web (js "web:2") oneWeb neverHealthy := fun r h => by
    rw [hfailed] at h
    cases h
  exact ⟨_, hold, rfl, ((rolling_failure_keeps_old web (js "web:2")).2.2 oneWeb neverHealthy _ hold
    (by decide +kernel) hfails).2⟩

end Aoox.Containers
