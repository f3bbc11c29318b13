import Aoox.Runs

/-! # Actions of a compose stack

Every request looks whether the stack is marked active.  A stop or a start marks it in the
same turn; a deploy, from a user or a webhook, first waits for the row of its run, so two
deploys that both looked before either was marked overlap, and the one that ends first takes
the mark of the other away.  A delete looks at the mark once and never sets it: the
`compose down` it runs is an action nobody can see.

At most one action executes, and the stack is marked exactly while one does, in every state
of a run exactly when no deploy gets its row while the stack is marked and no delete has
anything to take down (`one_run_iff`).  A delete that returned leaves no container of the
project when no deploy brings any up behind its look (`clean`).
-/
open Option Bool
namespace Aoox.ComposeRuns

/-! ## One action -/

inductive ComposeAction where
  | deploy | stop | start | down
  deriving DecidableEq

/-- The project's containers on the daemon, the checkout volume, and the stack's row. -/
structure World where
  containers : List Nat
  (volume row deployedAt : Bool)

/-- What `run` waits for. -/
inductive Phase where
  /-- `paths`: the checkout volume is created and inspected. -/
  | paths
  /-- The row of the run is looked up or inserted. -/
  | runRow
  /-- The stack becomes `deploying`. -/
  | marking
  | planning
  | helper
  /-- `waitHealthy`. -/
  | waiting
  | finishing
  /-- `finish` in the `catch` block. -/
  | closing (code : Option Nat)
  deriving DecidableEq

/-- How an awaited call ends. -/
inductive Answer where
  | ok
  | failed
  | exited (code : Nat) (left : List Nat)
  /-- The helper was broken off. -/
  | lost (left : List Nat)

def Answer.left : Answer → Option (List Nat)
  | exited _ left | lost left => some left
  | ok | failed => none

/-- `run` throws, or answers with a `RunOutcome`. -/
inductive Ended where
  | rejected
  | outcome (ok : Bool) (code : Option Nat)

/-- What `docker compose` may leave of the containers there were.  `stop` and `start` neither
create nor remove any, `down` creates none and removes all if it succeeds. -/
def mayLeave (action : ComposeAction) (containers left : List Nat) (code : Option Nat) : Bool :=
  match action with
  | .deploy => true
  | .stop | .start => left = containers
  | .down => left.all containers.contains && (code ≠ some 0 || left = [])

/-- One call of `run`: where it goes on, or how it ends. -/
def runStep (action : ComposeAction) (w : World) (a : Answer) : Phase → Option (World × (Phase ⊕ Ended))
  | .paths =>
    match a with
    | .ok => some ({ w with volume := true }, .inl .runRow)
    | .failed => some (w, .inr .rejected)
    | _ => none
  | .runRow =>
    match a with
    | .ok => if w.row then some (w, .inl .marking) else none -- it went with the stack's row
    | .failed => some (w, .inr .rejected)
    | _ => none
  | .marking =>
    match a with
    | .ok => some (w, .inl .planning)
    | .failed => some (w, .inr .rejected)
    | _ => none
  | .planning =>
    match a with
    | .ok => some (w, .inl .helper)
    | .failed => some (w, .inl (.closing none))
    | _ => none
  | .helper =>
    match a with
    | .exited code left =>
      if mayLeave action w.containers left (some code) then
        some ({ w with containers := left },
          .inl (if code ≠ 0 then .closing (some code)
            else if action = .deploy ∨ action = .start then .waiting else .finishing))
      else none
    | .lost left =>
      if mayLeave action w.containers left none then
        some ({ w with containers := left }, .inl (.closing none))
      else none
    | .failed => some (w, .inl (.closing none))
    | .ok => none
  | .waiting =>
    match a with
    | .ok => some (w, .inl .finishing)
    | .failed => some (w, .inl (.closing (some 0)))
    | _ => none
  | .finishing =>
    match a with
    | .ok => some ({ w with deployedAt := w.deployedAt || action = .deploy }, .inr (.outcome true (some 0)))
    | .failed => some (w, .inl (.closing (some 0)))
    | _ => none
  | .closing code =>
    match a with
    | .ok => some (w, .inr (.outcome false code))
    | .failed => some (w, .inr .rejected)
    | _ => none

/-! ## A delete -/

/-- What `destroy` waits for, and then the controller. -/
inductive Stage where
  | listing
  | checking
  /-- The project's containers are taken down. -/
  | down (phase : Phase)
  /-- There are none: a last `down`, of whose failure only the log knows. -/
  | tidying (phase : Phase)
  | removing (id : Nat) (ids : List Nat)
  | volume
  | mounts
  | row
  | returned
  | threw
  deriving DecidableEq

structure Delete where
  /-- The row had it when it was loaded. -/
  (deployedAt keepVolumes : Bool)
  found : List Nat
  checkout : Bool
  stage : Stage
  deriving DecidableEq

namespace Delete
variable (d : Delete)

def goTo (stage : Stage) : Delete := { d with stage := stage }

def afterVolume : Stage :=
  if !d.keepVolumes && (d.checkout || d.found ≠ [] || d.deployedAt) then .mounts else .row

def afterDown : Stage := if d.checkout || d.found ≠ [] then .volume else d.afterVolume

/-- The direct removal. -/
def remove : List Nat → Stage
  | [] => d.afterDown
  | id :: ids => .removing id ids

/-- `destroy` runs a `down`. -/
def tearsDown (checkout : Bool) : Bool := d.found ≠ [] || (checkout && d.deployedAt)

end Delete

/-- An action of the delete is being executed. -/
def Stage.runs : Stage → Bool
  | down _ | tidying _ => true
  | _ => false

/-- The next call of a delete. -/
def deleteStep (w : World) (a : Answer) (d : Delete) : Option (World × Delete) :=
  match d.stage with
  | .listing =>
    match a with
    | .ok => some (w, { d with found := w.containers, stage := .checking })
    | .failed => some (w, d.goTo .threw)
    | _ => none
  | .checking =>
    match a with
    | .ok =>
      let d' := { d with checkout := w.volume }
      some (w, d'.goTo (if d.found ≠ [] then .down .paths
        else if w.volume && d.deployedAt then .tidying .paths else d'.afterDown))
    | .failed => some (w, d.goTo .threw)
    | _ => none
  | .down phase =>
    (runStep .down w a phase).map fun (w', next) =>
      (w', match next with
        | .inl phase => d.goTo (.down phase)
        | .inr (.outcome true _) => d.goTo d.afterDown
        | .inr (.outcome false (some 3)) => d.goTo (d.remove d.found)
        | .inr (.outcome false _) | .inr .rejected => d.goTo .threw)
  | .tidying phase =>
    (runStep .down w a phase).map fun (w', next) =>
      (w', match next with
        | .inl phase => d.goTo (.tidying phase)
        | .inr (.outcome _ _) => d.goTo d.afterDown
        | .inr .rejected => d.goTo .threw)
  | .removing id ids =>
    match a with
    | .ok =>
      if w.containers.contains id then
        some ({ w with containers := w.containers.filter (· ≠ id) }, d.goTo (d.remove ids))
      else some (w, d.goTo .threw)
    | .failed => some (w, d.goTo .threw)
    | .lost _ => some ({ w with containers := w.containers.filter (· ≠ id) }, d.goTo .threw)
    | .exited _ _ => none
  | .volume =>
    match a with
    | .ok => some ({ w with volume := false }, d.goTo d.afterVolume)
    | .failed => some (w, d.goTo d.afterVolume)
    | _ => none
  | .mounts =>
    match a with
    | .ok => some (w, d.goTo .row)
    | .failed => some (w, d.goTo .threw)
    | _ => none
  | .row =>
    match a with
    | .ok => some ({ w with row := false }, d.goTo .returned)
    | .failed => some (w, d.goTo .threw)
    | _ => none
  | .returned | .threw => none

/-! ## The requests -/

inductive Request where
  /-- `queue`: the row of a deploy is being inserted. -/
  | inserting
  /-- `start`. -/
  | executing (action : ComposeAction) (phase : Phase)
  | deleting (d : Delete)
  deriving DecidableEq

def Request.runs : Request → Bool
  | inserting => false
  | executing _ _ => true
  | deleting d => d.stage.runs

def Request.ended : Request → Bool
  | inserting | executing _ _ => false
  | deleting d => d.stage = .returned || d.stage = .threw

structure State where
  world : World
  active : Bool
  requests : Nat → Option Request

inductive Action where
  /-- A request to deploy, or a push to the branch, has loaded the stack. -/
  | deploy (n : Nat)
  | stop (n : Nat)
  | start (n : Nat)
  | delete (n : Nat) (deployedAt keepVolumes : Bool)
  /-- What a request waits for has ended. -/
  | answer (n : Nat) (a : Answer)

def State.isActive (s : State) : Bool := s.active

def State.put (s : State) (n : Nat) (r : Option Request) : State :=
  { s with requests := Function.update s.requests n r }

/-- `start`. -/
def State.execute (s : State) (n : Nat) (action : ComposeAction) : State :=
  { s.put n (some (.executing action .paths)) with active := true }

/-- A request that is refused while the stack is active. -/
def State.unlessActive (s : State) (n : Nat) (s' : State) : Option State :=
  if (s.requests n).isSome then none else if s.isActive then some s else some s'

def step (s : State) : Action → Option State
  | .deploy n => s.unlessActive n (s.put n (some .inserting))
  | .stop n => s.unlessActive n (s.execute n .stop)
  | .start n => s.unlessActive n (s.execute n .start)
  | .delete n deployedAt keepVolumes =>
    s.unlessActive n (s.put n (some (.deleting ⟨deployedAt, keepVolumes, [], false, .listing⟩)))
  | .answer n a =>
    match s.requests n with
    | none => none
    | some .inserting =>
      match a with
      | .ok => some (s.execute n .deploy)
      | .failed => some (s.put n none)
      | _ => none
    | some (.executing action phase) =>
      (runStep action s.world a phase).map fun (w', next) =>
        match next with
        | .inl phase => { s.put n (some (.executing action phase)) with world := w' }
        | .inr _ => { s.put n none with world := w', active := false }
    | some (.deleting d) =>
      (deleteStep s.world a d).map fun (w', d') =>
        { s.put n (some (.deleting d')) with world := w' }

def Executes (s : State) (n : Nat) : Prop := ∃ r, s.requests n = some r ∧ r.runs = true

structure Exclusive (s : State) : Prop where
  atMostOne : ∀ n m, Executes s n → Executes s m → n = m
  marked : s.isActive = true ↔ ∃ n, Executes s n

/-- Once a delete has returned and all has ended, there is no container of the project. -/
def Clean (s : State) : Prop :=
  ∀ n d, s.requests n = some (.deleting d) → d.stage = .returned →
    (∀ m r, s.requests m = some r → r.ended = true) → s.world.containers = []

/-- No deploy gets its row while the stack is marked, and no delete runs an action. -/
def Unmarked (s : State) : Action → Prop
  | .answer n .ok =>
    match s.requests n with
    | some .inserting => s.isActive = false
    | some (.deleting d) => d.stage = .checking → d.tearsDown s.world.volume = false
    | _ => True
  | _ => True

/-- A delete has looked for the containers, and has not failed. -/
def Stage.looked : Stage → Bool
  | listing | threw => false
  | _ => true

/-- No deploy brings containers up that were not there when a delete has looked. -/
def NoneCreated (s : State) : Action → Prop
  | .answer n a => s.requests n = some (.executing .deploy .helper) →
      ∀ m d, s.requests m = some (.deleting d) → d.stage.looked = true →
        ∀ left, a.left = some left → left ⊆ s.world.containers
  | _ => True

/-! ## The mark -/

variable {s s' : State} {w w' : World} {d d' : Delete} {a : Answer}

theorem afterVolume_runs (d : Delete) : d.afterVolume.runs = false := by
  rw [Delete.afterVolume]
  split <;> rfl

theorem afterDown_runs (d : Delete) : d.afterDown.runs = false := by
  rw [Delete.afterDown]
  split
  · rfl
  · exact afterVolume_runs d

theorem remove_runs (d : Delete) (ids : List Nat) : (d.remove ids).runs = false := by
  cases ids with
  | nil => exact afterDown_runs d
  | cons id ids => rfl

/-- A delete enters an action from the look at the volume only. -/
theorem deleteStep_runs (h : deleteStep w a d = some (w', d')) (hruns : d.stage.runs = false)
    (hdown : d.stage = .checking → a = .ok → d.tearsDown w.volume = false) :
    d'.stage.runs = false := by
  obtain ⟨deployedAt, keepVolumes, found, checkout, stage⟩ := d
  cases stage with
  | down phase | tidying phase => cases hruns
  | returned | threw => cases h
  | listing | mounts | row => cases a <;> cases h <;> rfl
  | volume =>
    cases a <;> cases h
    · exact afterVolume_runs _
    · exact afterVolume_runs _
  | checking =>
    cases a <;> cases h
    · have hnone := hdown rfl rfl
      simp only [Delete.tearsDown, or_eq_false_iff] at hnone
      show Stage.runs (if found ≠ [] then _ else if (w.volume && deployedAt) = true then _ else _) = false
      rw [if_neg (by simpa using hnone.1), if_neg (by simp [hnone.2])]
      exact afterDown_runs _
    · rfl
  | removing id ids =>
    simp only [deleteStep] at h
    split at h
    · split at h
      · cases h
        exact remove_runs _ ids
      · cases h
        rfl
    · cases h
      rfl
    · cases h
      rfl
    · cases h

/-- The mark and the actions, when no delete executes one. -/
structure Marked (s : State) : Prop extends Exclusive s where
  deletes : ∀ n d, s.requests n = some (.deleting d) → d.stage.runs = false

variable {n : Nat} {r : Option Request}

theorem put_eq_some {m : Nat} {r' : Request}
    (h : (s.put n r).requests m = some r') : (m = n ∧ r = some r') ∨ (m ≠ n ∧ s.requests m = some r') :=
  Runs.update_eq_some h

/-- Another request, or one that neither executed an action nor does. -/
theorem executes_put {m : Nat} :
    Executes (s.put n r) m ↔ (m = n ∧ ∃ r', r = some r' ∧ r'.runs = true) ∨ (m ≠ n ∧ Executes s m) := by
  by_cases hm : m = n
  · subst hm
    simp [Executes, State.put]
  · simp [Executes, State.put, hm]

/-- A step that changes neither the mark nor who executes. -/
theorem Marked.of_put (h : Marked s) (hactive : s'.active = s.active)
    (hrequests : s'.requests = (s.put n r).requests)
    (hruns : (∃ r', r = some r' ∧ r'.runs = true) ↔ Executes s n)
    (hdelete : ∀ d, r = some (.deleting d) → d.stage.runs = false) : Marked s' := by
  have hexec : ∀ m, Executes s' m ↔ Executes s m := by
    intro m
    have hput : Executes s' m ↔ Executes (s.put n r) m := by rw [Executes, hrequests, Executes]
    rw [hput, executes_put, hruns]
    by_cases hm : m = n
    · simp [hm]
    · simp [hm]
  refine ⟨⟨?_, ?_⟩, ?_⟩
  · intro m m' hm hm'
    exact h.atMostOne m m' ((hexec m).mp hm) ((hexec m').mp hm')
  · simp only [State.isActive, hactive, hexec]
    exact h.marked
  · intro m d hd
    rw [hrequests] at hd
    rcases put_eq_some hd with ⟨-, hnew⟩ | ⟨-, hold⟩
    · exact hdelete d hnew
    · exact h.deletes m d hold

/-- **An action that is entered is the only one.** -/
theorem Marked.execute (h : Marked s) (hfree : s.isActive = false) (n : Nat) (action : ComposeAction) :
    Marked (s.execute n action) := by
  have hnone : ∀ m, ¬ Executes s m := by
    intro m hm
    rw [h.marked.mpr ⟨m, hm⟩] at hfree
    cases hfree
  have hexec : ∀ m, Executes (s.execute n action) m ↔ m = n := by
    intro m
    have hput : Executes (s.execute n action) m ↔
        Executes (s.put n (some (.executing action .paths))) m := Iff.rfl
    rw [hput, executes_put]
    simp [hnone, Request.runs]
  refine ⟨⟨?_, ?_⟩, ?_⟩
  · intro m m' hm hm'
    rw [(hexec m).mp hm, (hexec m').mp hm']
  · exact ⟨fun _ => ⟨n, (hexec n).mpr rfl⟩, fun _ => rfl⟩
  · intro m d hd
    rcases put_eq_some hd with ⟨-, hnew⟩ | ⟨-, hold⟩
    · cases hnew
    · exact h.deletes m d hold

/-- **An action that ends was the one the stack was marked for.** -/
theorem Marked.leave (h : Marked s) (hn : Executes s n) :
    Marked { s.put n none with world := w', active := false } := by
  have hnone : ∀ m, ¬ Executes { s.put n none with world := w', active := false } m := by
    intro m hm
    have hput : Executes (s.put n none) m := hm
    rcases executes_put.mp hput with ⟨-, r', hr', -⟩ | ⟨hne, hm⟩
    · cases hr'
    · exact hne (h.atMostOne m n hm hn)
  refine ⟨⟨?_, ?_⟩, ?_⟩
  · exact fun m m' hm _ => absurd hm (hnone m)
  · exact ⟨fun h => by (cases h), fun ⟨m, hm⟩ => absurd hm (hnone m)⟩
  · intro m d hd
    rcases put_eq_some hd with ⟨-, hnew⟩ | ⟨-, hold⟩
    · cases hnew
    · exact h.deletes m d hold

variable {s₁ : State}

theorem Marked.unlessActive (h : Marked s) (hstep : s.unlessActive n s₁ = some s')
    (hnew : s.requests n = none → s.isActive = false → Marked s₁) : Marked s' := by
  rw [State.unlessActive] at hstep
  split at hstep
  · cases hstep
  · rename_i hfree
    have hnone : s.requests n = none := by simpa using hfree
    split at hstep
    · cases hstep
      exact h
    · rename_i hactive
      cases hstep
      exact hnew hnone (by simpa using hactive)

/-- A request that does not execute yet. -/
theorem Marked.accept (h : Marked s) (hn : s.requests n = none) {r : Request}
    (hr : r.runs = false) : Marked (s.put n (some r)) := by
  refine h.of_put rfl rfl ?_ ?_
  · constructor
    · rintro ⟨r', hr', hruns⟩
      obtain rfl := some.inj hr'
      rw [hr] at hruns
      cases hruns
    · rintro ⟨r', hr', -⟩
      rw [hn] at hr'
      cases hr'
  · intro d hd
    obtain rfl := some.inj hd
    exact hr

theorem executes_iff {r : Request} (h : s.requests n = some r) : Executes s n ↔ r.runs = true := by
  simp [Executes, h]

variable {act : Action}

theorem Marked.step (h : Marked s) (hunmarked : Unmarked s act)
    (hstep : ComposeRuns.step s act = some s') : Marked s' := by
  cases act with
  | deploy n => exact h.unlessActive hstep fun hn _ => h.accept hn rfl
  | stop n => exact h.unlessActive hstep fun _ hfree => h.execute hfree n .stop
  | start n => exact h.unlessActive hstep fun _ hfree => h.execute hfree n .start
  | delete n deployedAt keepVolumes => exact h.unlessActive hstep fun hn _ => h.accept hn rfl
  | answer n a =>
    simp only [ComposeRuns.step] at hstep
    split at hstep
    · cases hstep
    · rename_i hn
      split at hstep
      · cases hstep
        exact h.execute (by simpa [Unmarked, hn] using hunmarked) n .deploy
      · cases hstep
        refine h.of_put rfl rfl ?_ fun d hd => by cases hd
        simp [executes_iff hn, Request.runs]
      · cases hstep
    · rename_i action phase hn
      obtain ⟨⟨w', next⟩, -, hs'⟩ := map_eq_some_iff.mp hstep
      cases next with
      | inl phase' =>
        subst hs'
        refine h.of_put (n := n) rfl rfl ?_ fun d hd => by cases hd
        simp [executes_iff hn, Request.runs]
      | inr ended =>
        subst hs'
        exact h.leave ((executes_iff hn).mpr rfl)
    · rename_i d hn
      obtain ⟨⟨w', d'⟩, hdelete, hs'⟩ := map_eq_some_iff.mp hstep
      subst hs'
      have hruns : d'.stage.runs = false := by
        refine deleteStep_runs hdelete (h.deletes n d hn) ?_
        rintro hstage rfl
        simpa [Unmarked, hn, hstage] using hunmarked
      refine h.of_put (n := n) rfl rfl ?_ ?_
      · simp [executes_iff hn, Request.runs, hruns, h.deletes n d hn]
      · intro d'' hd
        cases hd
        exact hruns

theorem deleteStep_tearsDown (hstage : d.stage = .checking) (hdown : d.tearsDown w.volume = true) :
    ∃ d', deleteStep w .ok d = some (w, d') ∧ d'.stage.runs = true := by
  obtain ⟨deployedAt, keepVolumes, found, checkout, stage⟩ := d
  obtain rfl : stage = .checking := hstage
  refine ⟨_, rfl, ?_⟩
  show Stage.runs (if found ≠ [] then _ else if (w.volume && deployedAt) = true then _ else _) = true
  by_cases hfound : found ≠ []
  · rw [if_pos hfound]
    rfl
  · have htidy : (w.volume && deployedAt) = true := by
      simpa [Delete.tearsDown, not_not.mp hfound] using hdown
    rw [if_neg hfound, if_pos htidy]
    rfl

/-- **A step that misses the condition** makes two actions overlap, or one go on unseen. -/
theorem Marked.breaks (h : Marked s) (hmarked : ¬ Unmarked s act) :
    ∃ s', ComposeRuns.step s act = some s' ∧ ¬ Exclusive s' := by
  cases act with
  | deploy | stop | start | delete => exact absurd trivial hmarked
  | answer n a =>
    cases a with
    | failed | exited | lost => exact absurd trivial hmarked
    | ok =>
      rcases hn : s.requests n with _ | ⟨_⟩ | ⟨action, phase⟩ | ⟨d⟩
      · exact absurd (by simp [Unmarked, hn]) hmarked
      · have hactive : s.isActive = true := by simpa [Unmarked, hn] using hmarked
        obtain ⟨m, hm⟩ := h.marked.mp hactive
        have hne : m ≠ n := by
          rintro rfl
          obtain ⟨r, hr, hruns⟩ := hm
          rw [hn] at hr
          cases hr
          cases hruns
        refine ⟨s.execute n .deploy, by simp only [ComposeRuns.step, hn], ?_⟩
        intro hexcl
        refine hne (hexcl.atMostOne m n ?_ ?_)
        · exact executes_put.mpr (Or.inr ⟨hne, hm⟩)
        · exact executes_put.mpr (Or.inl ⟨rfl, _, rfl, rfl⟩)
      · exact absurd (by simp [Unmarked, hn]) hmarked
      · have hdown : d.stage = .checking ∧ d.tearsDown s.world.volume = true := by
          simpa [Unmarked, hn] using hmarked
        obtain ⟨d', hdelete, hruns⟩ := deleteStep_tearsDown hdown.1 hdown.2
        refine ⟨s.put n (some (.deleting d')), ?_, ?_⟩
        · simp only [ComposeRuns.step, hn, hdelete, map_some]
          rfl
        · intro hexcl
          have hexec : Executes (s.put n (some (.deleting d'))) n :=
            executes_put.mpr (Or.inl ⟨rfl, _, rfl, hruns⟩)
          -- the mark is as it was: it is for another action
          obtain ⟨m, hm⟩ := h.marked.mp (hexcl.marked.mpr ⟨n, hexec⟩)
          have hne : m ≠ n := by
            rintro rfl
            rw [executes_iff hn] at hm
            rw [Request.runs, hdown.1] at hm
            cases hm
          exact hne (hexcl.atMostOne m n (executes_put.mpr (Or.inr ⟨hne, hm⟩)) hexec)

/-- A process that has just begun. -/
def initial (w : World) : State := ⟨w, false, fun _ => none⟩

theorem marked_initial (w : World) : Marked (initial w) := by
  refine ⟨⟨?_, ?_⟩, ?_⟩
  · rintro n m ⟨r, hr, -⟩
    cases hr
  · constructor
    · intro h
      cases h
    · rintro ⟨n, r, hr, -⟩
      cases hr
  · intro n d hd
    cases hd

theorem one_run_iff (w : World) (as : List Action) :
    Runs.Throughout step Exclusive (initial w) as ↔ Runs.Meets step Unmarked (initial w) as :=
  Runs.throughout_iff_meets (fun _ _ _ h ha hstep => Marked.step h ha hstep)
    (fun _ h => Marked.toExclusive h) (fun _ _ h ha => Marked.breaks h ha) as _ (marked_initial w)

/-! ## What a delete leaves -/

/-- What a delete has seen to so far. -/
def Stage.Settled (containers found : List Nat) : Stage → Prop
  | listing | threw => True
  | checking => containers ⊆ found
  | down phase => containers ⊆ found ∧ (phase = .waiting ∨ phase = .finishing → containers = [])
  | tidying _ => containers = []
  | removing id ids => containers ⊆ id :: ids
  | volume | mounts | row | returned => containers = []

variable {action : ComposeAction} {next : Phase ⊕ Ended}

variable {phase : Phase}

/-- **Only the helper touches the containers**, as compose may. -/
theorem runStep_containers (h : runStep action w a phase = some (w', next)) :
    w'.containers = w.containers ∨ (phase = .helper ∧ ∃ left code, a.left = some left ∧
      w'.containers = left ∧ mayLeave action w.containers left code = true) := by
  cases phase with
  | helper =>
    cases a with
    | ok => cases h
    | failed =>
      cases h
      exact Or.inl rfl
    | exited code left =>
      simp only [runStep] at h
      split at h
      · rename_i hmay
        cases h
        exact Or.inr ⟨rfl, left, some code, rfl, rfl, hmay⟩
      · cases h
    | lost left =>
      simp only [runStep] at h
      split at h
      · rename_i hmay
        cases h
        exact Or.inr ⟨rfl, left, none, rfl, rfl, hmay⟩
      · cases h
  | runRow =>
    simp only [runStep] at h
    split at h
    · split at h
      · cases h
        exact Or.inl rfl
      · cases h
    · cases h
      exact Or.inl rfl
    · cases h
  | paths | marking | planning | waiting | finishing | closing =>
    cases a <;> cases h <;> exact Or.inl rfl

variable {containers : List Nat}

theorem mayLeave_subset {left : List Nat} {code : Option Nat}
    (h : mayLeave action containers left code = true)
    (hne : action ≠ .deploy) : left ⊆ containers := by
  cases action with
  | deploy => exact absurd rfl hne
  | stop | start =>
    obtain rfl : left = containers := by simpa [mayLeave] using h
    exact List.Subset.refl _
  | down =>
    intro id hid
    simp only [mayLeave, and_eq_true, List.all_eq_true] at h
    simpa using h.1 id hid

/-- Nothing but a deploy brings containers up. -/
theorem runStep_subset (h : runStep action w a phase = some (w', next))
    (hne : action ≠ .deploy) : w'.containers ⊆ w.containers := by
  rcases runStep_containers h with hsame | ⟨-, left, code, -, hleft, hmay⟩
  · rw [hsame]
    exact List.Subset.refl _
  · rw [hleft]
    exact mayLeave_subset hmay hne

/-- **A `down` that succeeds has removed every container.** -/
theorem runStep_down (h : runStep .down w a phase = some (w', next))
    (hs : phase = .waiting ∨ phase = .finishing → w.containers = []) :
    (∀ phase', next = .inl phase' → phase' = .waiting ∨ phase' = .finishing → w'.containers = []) ∧
      ∀ code, next = .inr (.outcome true code) → w'.containers = [] := by
  cases phase with
  | helper =>
    refine ⟨?_, ?_⟩
    · rintro phase' rfl hphase
      cases a with
      | ok => cases h
      | failed =>
        cases h
        rcases hphase with h | h <;> cases h
      | lost left =>
        simp only [runStep] at h
        split at h
        · cases h
          rcases hphase with h | h <;> cases h
        · cases h
      | exited code left =>
        simp only [runStep] at h
        split at h
        · rename_i hmay
          cases h
          by_cases hcode : code = 0
          · subst hcode
            simp only [mayLeave, and_eq_true, or_eq_true, decide_eq_true_eq] at hmay
            rcases hmay.2 with hne | hleft
            · exact absurd rfl hne
            · exact hleft
          · rw [if_pos hcode] at hphase
            rcases hphase with h | h <;> cases h
        · cases h
    · rintro code rfl
      cases a with
      | ok | failed => cases h
      | exited code left | lost left =>
        simp only [runStep] at h
        split at h <;> cases h
  | runRow =>
    simp only [runStep] at h
    split at h
    · split at h
      · cases h
        refine ⟨?_, fun _ h => by cases h⟩
        rintro phase' h hphase
        cases h
        rcases hphase with h | h <;> cases h
      · cases h
    · cases h
      exact ⟨fun _ h => (by cases h), fun _ h => by cases h⟩
    · cases h
  | waiting | finishing =>
    have hnone := hs (by simp)
    cases a <;> cases h <;> exact ⟨fun _ _ _ => hnone, fun _ _ => hnone⟩
  | paths | marking | planning | closing =>
    cases a <;> cases h <;> refine ⟨?_, fun _ h => by cases h⟩ <;> rintro phase' h hphase <;> cases h
    all_goals rcases hphase with h | h <;> cases h

variable {found : List Nat}

theorem Stage.Settled.mono {stage : Stage} {containers' : List Nat}
    (h : stage.Settled containers found) (hsub : containers' ⊆ containers) :
    stage.Settled containers' found := by
  have hnil : containers = [] → containers' = [] := by
    rintro rfl
    exact List.subset_nil.mp hsub
  cases stage with
  | listing | threw => trivial
  | checking | removing => exact List.Subset.trans hsub h
  | down phase => exact ⟨List.Subset.trans hsub h.1, fun hphase => hnil (h.2 hphase)⟩
  | tidying | volume | mounts | row | returned => exact hnil h

theorem afterVolume_settled (d : Delete) (h : containers = []) :
    d.afterVolume.Settled containers found := by
  rw [Delete.afterVolume]
  split <;> exact h

theorem afterDown_settled (d : Delete) (h : containers = []) :
    d.afterDown.Settled containers found := by
  rw [Delete.afterDown]
  split
  · exact h
  · exact afterVolume_settled d h

theorem remove_settled (d : Delete) {ids : List Nat} (h : containers ⊆ ids) :
    (d.remove ids).Settled containers found := by
  cases ids with
  | nil => exact afterDown_settled d (List.subset_nil.mp h)
  | cons id ids => exact h

theorem deleteStep_subset (h : deleteStep w a d = some (w', d')) : w'.containers ⊆ w.containers := by
  obtain ⟨deployedAt, keepVolumes, found, checkout, stage⟩ := d
  cases stage with
  | down phase | tidying phase =>
    obtain ⟨⟨w₁, next⟩, hrun, h⟩ := map_eq_some_iff.mp h
    cases h
    exact runStep_subset hrun (by decide)
  | removing id ids =>
    simp only [deleteStep] at h
    split at h
    · split at h <;> cases h
      · exact List.filter_sublist.subset
      · exact List.Subset.refl _
    · cases h
      exact List.Subset.refl _
    · cases h
      exact List.filter_sublist.subset
    · cases h
  | returned | threw => cases h
  | listing | checking | volume | mounts | row =>
    cases a <;> cases h <;> exact List.Subset.refl _

/-- **A call of a delete sees to one thing more.** -/
theorem deleteStep_settled (h : deleteStep w a d = some (w', d'))
    (hs : d.stage.Settled w.containers d.found) : d'.stage.Settled w'.containers d'.found := by
  obtain ⟨deployedAt, keepVolumes, found, checkout, stage⟩ := d
  cases stage with
  | returned | threw => cases h
  | listing =>
    cases a <;> cases h
    · exact List.Subset.refl _
    · trivial
  | checking =>
    cases a <;> cases h
    · show Stage.Settled _ _ (if found ≠ [] then _ else if (w.volume && deployedAt) = true then _ else _)
      have hsub : w.containers ⊆ found := hs
      by_cases hfound : found ≠ []
      · rw [if_pos hfound]
        exact ⟨hsub, fun h => by rcases h with h | h <;> cases h⟩
      · rw [not_not.mp hfound] at hsub
        rw [if_neg hfound]
        split
        · exact List.subset_nil.mp hsub
        · exact afterDown_settled _ (List.subset_nil.mp hsub)
    · trivial
  | down phase =>
    obtain ⟨⟨w₁, next⟩, hrun, h⟩ := map_eq_some_iff.mp h
    cases h
    have hsub : w'.containers ⊆ found := List.Subset.trans (runStep_subset hrun (by decide)) hs.1
    obtain ⟨hgoes, hends⟩ := runStep_down hrun hs.2
    split
    · exact ⟨hsub, hgoes _ rfl⟩
    · exact afterDown_settled _ (hends _ rfl)
    · exact remove_settled _ hsub
    · trivial
    · trivial
  | tidying phase =>
    obtain ⟨⟨w₁, next⟩, hrun, h⟩ := map_eq_some_iff.mp h
    cases h
    have hsub := runStep_subset hrun (by decide)
    have hnone : w.containers = [] := hs
    rw [hnone] at hsub
    have hnone' := List.subset_nil.mp hsub
    split
    · exact hnone'
    · exact afterDown_settled _ hnone'
    · trivial
  | removing id ids =>
    have hsub : w.containers ⊆ id :: ids := hs
    simp only [deleteStep] at h
    split at h
    · split at h
      · cases h
        refine remove_settled _ ?_
        intro k hk
        obtain ⟨hmem, hne⟩ := List.mem_filter.mp hk
        rcases List.mem_cons.mp (hsub hmem) with rfl | hrest
        · simp at hne
        · exact hrest
      · cases h
        trivial
    · cases h
      trivial
    · cases h
      trivial
    · cases h
  | volume =>
    cases a <;> cases h
    · exact afterVolume_settled _ hs
    · exact afterVolume_settled _ hs
  | mounts | row =>
    cases a <;> cases h
    · exact hs
    · trivial

/-- Every delete has seen to what it should have. -/
def Settled (s : State) : Prop :=
  ∀ n d, s.requests n = some (.deleting d) → d.stage.Settled s.world.containers d.found

theorem settled_put (hrequests : s'.requests = (s.put n r).requests)
    (hr : ∀ d, r = some (.deleting d) → d.stage = .listing)
    (hworld : ∀ m d, s.requests m = some (.deleting d) →
      d.stage.Settled s'.world.containers d.found) : Settled s' := by
  intro m d hd
  rw [hrequests] at hd
  rcases put_eq_some hd with ⟨-, hnew⟩ | ⟨-, hold⟩
  · rw [hr d hnew]
    trivial
  · exact hworld m d hold

theorem Settled.unlessActive (h : Settled s) (hstep : s.unlessActive n s₁ = some s')
    (hnew : Settled s₁) : Settled s' := by
  rw [State.unlessActive] at hstep
  split at hstep
  · cases hstep
  · split at hstep
    · cases hstep
      exact h
    · cases hstep
      exact hnew

theorem Settled.step (h : Settled s) (hnone : NoneCreated s act)
    (hstep : ComposeRuns.step s act = some s') : Settled s' := by
  cases act with
  | deploy n =>
    exact h.unlessActive hstep (settled_put (n := n) rfl (fun d hd => by cases hd) fun m d hd => h m d hd)
  | stop n =>
    exact h.unlessActive hstep (settled_put (n := n) rfl (fun d hd => by cases hd) fun m d hd => h m d hd)
  | start n =>
    exact h.unlessActive hstep (settled_put (n := n) rfl (fun d hd => by cases hd) fun m d hd => h m d hd)
  | delete n deployedAt keepVolumes =>
    refine h.unlessActive hstep (settled_put (n := n) rfl ?_ fun m d hd => h m d hd)
    intro d hd
    cases hd
    rfl
  | answer n a =>
    simp only [ComposeRuns.step] at hstep
    split at hstep
    · cases hstep
    · split at hstep
      · cases hstep
        exact settled_put (n := n) rfl (fun d hd => by cases hd) fun m d hd => h m d hd
      · cases hstep
        exact settled_put (n := n) rfl (fun d hd => by cases hd) fun m d hd => h m d hd
      · cases hstep
    · rename_i action phase hn
      obtain ⟨⟨w', next⟩, hrun, hs'⟩ := map_eq_some_iff.mp hstep
      -- what was brought up was there when a delete has looked, or none has
      have hworld : ∀ m d, s.requests m = some (.deleting d) →
          d.stage.Settled w'.containers d.found := by
        intro m d hd
        by_cases hdeploy : action = .deploy
        · subst hdeploy
          rcases runStep_containers hrun with hsame | ⟨rfl, left, code, hleft, hw', -⟩
          · rw [hsame]
            exact h m d hd
          · by_cases hlooked : d.stage.looked = true
            · refine (h m d hd).mono ?_
              rw [hw']
              exact hnone hn m d hd hlooked left hleft
            · cases hstage : d.stage <;> rw [hstage] at hlooked
              case listing | threw => trivial
              all_goals exact absurd rfl hlooked
        · exact (h m d hd).mono (runStep_subset hrun hdeploy)
      cases next with
      | inl phase' =>
        subst hs'
        exact settled_put (n := n) rfl (fun d hd => by cases hd) hworld
      | inr ended =>
        subst hs'
        exact settled_put (n := n) rfl (fun d hd => by cases hd) hworld
    · rename_i d hn
      obtain ⟨⟨w', d'⟩, hdelete, hs'⟩ := map_eq_some_iff.mp hstep
      subst hs'
      intro m d'' hd
      rcases put_eq_some hd with ⟨-, hnew⟩ | ⟨-, hold⟩
      · cases hnew
        exact deleteStep_settled hdelete (h n d hn)
      · exact (h m d'' hold).mono (deleteStep_subset hdelete)

theorem Settled.clean (h : Settled s) : Clean s := by
  intro n d hd hreturned _
  have hs := h n d hd
  rw [hreturned] at hs
  exact hs

/-- **The mark, the actions and the deletes.**  At most one action executes, and the stack is
marked exactly while one does, exactly when no deploy gets its row while the stack is marked
and no delete runs an action; and a delete that returned leaves no container as long as no
deploy brings any up behind its look. -/
theorem exclusive_and_clean (w : World) (as : List Action) :
    (Runs.Throughout step Exclusive (initial w) as ↔ Runs.Meets step Unmarked (initial w) as) ∧
      (Runs.Meets step NoneCreated (initial w) as →
        ∀ s, Runs.exec step (initial w) as = some s → Clean s) := by
  refine ⟨one_run_iff w as, ?_⟩
  intro hmeets s hexec
  have hinitial : Settled (initial w) := fun _ _ hd => by cases hd
  have hsettled : Settled s :=
    Runs.exec_invariant (fun _ _ _ hs ha hstep => Settled.step hs ha hstep) as _ _ hinitial hmeets hexec
  exact hsettled.clean

/-! ## A stack that is deployed and deleted -/

def created : World := ⟨[], false, true, false⟩

def running : World := ⟨[7], true, true, true⟩

/-- A delete that takes the stack down. -/
def deleted : List Action :=
  .delete 1 true false :: (List.replicate 6 (.answer 1 .ok) ++ .answer 1 (.exited 0 []) ::
    List.replicate 4 (.answer 1 .ok))

theorem noneCreated_of (h : s.requests n ≠ some (.executing .deploy .helper)) :
    NoneCreated s (.answer n a) := fun hn => absurd hn h

theorem clean_deleted :
    ∃ s, Runs.exec step (initial running) deleted = some s ∧
      (s.requests 1).map Request.ended = some true ∧ Clean s := by
  refine ⟨_, rfl, by decide, (exclusive_and_clean running deleted).2 ?_ _ rfl⟩
  refine Runs.meets_cons rfl trivial ?_
  iterate 11 refine Runs.meets_cons rfl (noneCreated_of (by decide)) ?_
  trivial

/-- Two deploys overlap; a delete takes the stack down while it is not marked; and a deploy
brings up containers behind the look of a delete. -/
theorem actions_collide :
    (¬ ∀ as s, Runs.exec step (initial created) as = some s →
        ∀ n m, Executes s n → Executes s m → n = m) ∧
      (¬ ∀ as s, Runs.exec step (initial running) as = some s →
        (s.isActive = true ↔ ∃ n, Executes s n)) ∧
      ¬ ∀ as s, Runs.exec step (initial created) as = some s → Clean s := by
  refine ⟨?_, ?_, ?_⟩
  · intro h
    have hone := h [.deploy 1, .deploy 2, .answer 1 .ok, .answer 2 .ok] _ rfl 1 2 ⟨_, rfl, rfl⟩ ⟨_, rfl, rfl⟩
    cases hone
  · intro h
    have hmarked := h [.delete 1 true false, .answer 1 .ok, .answer 1 .ok] _ rfl
    have hactive := hmarked.mpr ⟨1, _, rfl, rfl⟩
    cases hactive
  · intro h
    have hclean := h (.deploy 1 :: .delete 2 false false :: List.replicate 5 (.answer 1 .ok) ++
      List.replicate 5 (.answer 2 .ok) ++ [.answer 1 (.exited 0 [1]), .answer 1 .ok, .answer 1 .ok])
      _ rfl 2 _ rfl rfl ?_
    · cases hclean
    · intro m r hr
      rcases put_eq_some (n := 1) hr with ⟨-, hnone⟩ | ⟨hm, hr⟩
      · cases hnone
      · by_cases hm' : m = 2
        · subst hm'
          obtain rfl := Option.some.inj hr
          rfl
        · simp [State.put, State.execute, Function.update_of_ne hm, Function.update_of_ne hm',
            initial] at hr

end Aoox.ComposeRuns
