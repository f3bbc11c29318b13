import Aoox.JsString
import Aoox.Runs
import Aoox.Table

/-! # Previews of pull requests

A preview is a row and one container, both of one pull request.  Webhooks and builds work
on it at the same time: an opened or updated pull request saves the row and starts a build
unless one is active, a closed one removes the container and then the row, and a build
checks out the branch, looks whether its row is still there, replaces the container, looks
again, and marks the row.  Each of these is a party with its own steps, and a run is any
order of them.

Two things go wrong between the steps.  An event that comes in after the build has checked
out changes the commit of the row and starts nothing.  And a container that a close has
not found, because the build was about to create it, is left behind when the build fails
afterwards or had already looked for its row.  `Undisturbed` says of a step that it is none
of these; the invariant (`Inv`) then couples the row, the container, the build and the
closes under way, and a run of such steps shows and leaves what it should
(`undisturbed_sound`).
-/
open List Option
namespace Aoox.Previews

open JsString

/-! ## State -/

abbrev Commit := JsString

inductive Status where
  | building | running | failed
  deriving DecidableEq, Repr

/-- The row of the pull request. -/
structure Row where
  id : Nat
  commitSha : Option Commit
  status : Status
  deriving DecidableEq

/-- The container under the name of the preview; a name is taken by one container at a
time. -/
structure Container where
  id : Nat
  commit : Commit
  deriving DecidableEq

/-- How far a build is. -/
inductive Stage where
  | building
  /-- The branch is checked out and its image is being built. -/
  | cloned (c : Commit)
  /-- The row was there: the old container is looked up next. -/
  | replacing (c : Commit)
  | removing (c : Commit) (old : Option Nat)
  | creating (c : Commit)
  /-- The container exists and is started; its health is waited for. -/
  | created (c : Commit)
  | started (c : Commit)
  /-- The row was there again. -/
  | finishing (c : Commit)
  /-- The row was gone: the container is looked up and removed. -/
  | cleaning
  | cleaningFound (old : Option Nat)
  deriving DecidableEq

/-- A build of a row; `active` holds at most one per row. -/
structure Build where
  row : Nat
  stage : Stage
  deriving DecidableEq

inductive CloserStage where
  | looking
  | removing (found : Option Nat)
  | deleting
  deriving DecidableEq

/-- A close that found the row and is tearing the preview down. -/
structure Closer where
  row : Nat
  stage : CloserStage
  deriving DecidableEq

/-- An opened or updated event between reading the row and saving it. -/
structure Upsert where
  found : Option Nat
  sha : Option Commit
  deriving DecidableEq

structure State where
  /-- The head of the branch at the provider. -/
  head : Commit
  row : Option Row
  container : Option Container
  (nextRow nextContainer : Nat)
  builds : List Build
  closers : List Closer
  pending : List Upsert
  /-- The last event that came in closed the pull request. -/
  closed : Bool
  deriving DecidableEq

/-! ## Steps -/

/-- How a call of a close ends. -/
inductive Reply where
  | ok
  /-- The lookup fails, which counts as nothing found. -/
  | lookupFailed
  | throws
  deriving DecidableEq, Repr

inductive Action where
  | push (c : Commit)
  /-- `opened`, `synchronize` or `reopened`; `capped` when five previews are open. -/
  | received (sha : Option Commit) (capped : Bool)
  | save (i : Nat)
  /-- The request ends with an error before it saves. -/
  | abandon (i : Nat)
  | close
  | closer (i : Nat) (reply : Reply)
  | build (row : Nat)
  /-- The build's next call throws; `recorded` when the failure could be written. -/
  | fail (row : Nat) (recorded : Bool)

def present (s : State) (id : Nat) : Bool := (s.row.map Row.id) = some id

/-- An update of the row by id, which does nothing when it is gone. -/
def mark (s : State) (id : Nat) (status : Status) : State :=
  { s with row := s.row.map fun r => if r.id = id then { r with status } else r }

def endBuild (s : State) (id : Nat) : State :=
  { s with builds := s.builds.filter fun b => b.row ≠ id }

def setStage (s : State) (id : Nat) (stage : Stage) : State :=
  { s with builds := Table.save Build.row s.builds ⟨id, stage⟩ }

def startBuild (s : State) (id : Nat) : State :=
  if s.builds.any fun b => b.row = id then s else { s with builds := s.builds ++ [⟨id, .building⟩] }

/-- The second half of `upsert`.  Saving an entity whose row is gone inserts it again; a
second row for the pull request is refused by the unique index. -/
def saveUpsert (s : State) (u : Upsert) : State :=
  match u.found, s.row with
  | none, none =>
    startBuild { s with row := some ⟨s.nextRow, u.sha, .building⟩, nextRow := s.nextRow + 1 } s.nextRow
  | none, some _ => s
  | some id, none => startBuild { s with row := some ⟨id, u.sha, .building⟩ } id
  | some id, some r =>
    if r.id = id then startBuild { s with row := some ⟨id, u.sha, .building⟩ } id else s

def removeContainer (s : State) (id : Nat) : Option State :=
  if (s.container.map Container.id) = some id then some { s with container := none } else none

/-- A step of `destroy`; `none` is an error, which leaves the row. -/
def closerStep (s : State) (k : Closer) (reply : Reply) : Option (State × Option CloserStage) :=
  match k.stage, reply with
  | _, .throws => none
  | .looking, .ok => some (s, some (.removing (s.container.map Container.id)))
  | .looking, .lookupFailed => some (s, some .deleting)
  | .removing none, _ => some (s, some .deleting)
  | .removing (some id), .ok => (removeContainer s id).map fun t => (t, some .deleting)
  | .removing (some _), .lookupFailed => none
  | .deleting, _ =>
    some ({ s with row := if present s k.row then none else s.row }, none)

def failBuild (s : State) (id : Nat) (recorded : Bool) : State :=
  endBuild (if recorded then mark s id .failed else s) id

/-- The next call of a build succeeds, where Docker lets it. -/
def advance (s : State) (b : Build) : State :=
  match b.stage with
  | .building => setStage s b.row (.cloned s.head)
  | .cloned c => if present s b.row then setStage s b.row (.replacing c) else endBuild s b.row
  | .replacing c => setStage s b.row (.removing c (s.container.map Container.id))
  | .removing c none => setStage s b.row (.creating c)
  | .removing c (some old) =>
    match removeContainer s old with
    | some t => setStage t b.row (.creating c)
    | none => failBuild s b.row true
  | .creating c =>
    match s.container with
    | some _ => failBuild s b.row true
    | none =>
      setStage { s with container := some ⟨s.nextContainer, c⟩, nextContainer := s.nextContainer + 1 }
        b.row (.created c)
  | .created c => setStage s b.row (.started c)
  | .started c => setStage s b.row (if present s b.row then .finishing c else .cleaning)
  | .finishing _ => endBuild (mark s b.row .running) b.row
  | .cleaning => setStage s b.row (.cleaningFound (s.container.map Container.id))
  | .cleaningFound none => endBuild s b.row
  | .cleaningFound (some old) => endBuild ((removeContainer s old).getD s) b.row

def step (s : State) : Action → Option State
  | .push c => some { s with head := c }
  | .received sha capped =>
    some (if s.row = none ∧ capped = true then { s with closed := false }
      else { s with pending := s.pending ++ [⟨s.row.map Row.id, sha⟩], closed := false })
  | .save i => s.pending[i]?.map fun u => { saveUpsert s u with pending := s.pending.eraseIdx i }
  | .abandon i => s.pending[i]?.map fun _ => { s with pending := s.pending.eraseIdx i }
  | .close =>
    some { s with
      closers := s.closers ++ s.row.toList.map fun r => ⟨r.id, .looking⟩
      closed := true }
  | .closer i reply =>
    s.closers[i]?.map fun k =>
      match closerStep s k reply with
      | some (t, some stage) => { t with closers := t.closers.set i ⟨k.row, stage⟩ }
      | some (t, none) => { t with closers := t.closers.eraseIdx i }
      | none => { s with closers := s.closers.eraseIdx i }
  | .build id => (Table.get Build.row s.builds id).map (advance s)
  | .fail id recorded => (Table.get Build.row s.builds id).map fun _ => failBuild s id recorded

/-- Before the pull request. -/
def initial (head : Commit) : State := ⟨head, none, none, 0, 0, [], [], [], false⟩

/-! ## What a preview shows and leaves -/

/-- The container runs the commit of the row. -/
def Serves (s : State) (r : Row) : Prop :=
  ∃ k, s.container = some k ∧ ∀ sha, r.commitSha = some sha → k.commit = sha

/-- When no build is active and no close is under way, a preview shown as running serves the
commit of its row, and a closed pull request has no container. -/
def Sound (s : State) : Prop :=
  s.builds = [] → s.closers = [] →
    (∀ r, s.row = some r → r.status = .running → Serves s r) ∧
    (s.closed = true → s.container = none)

/-! ## The condition on steps -/

/-- The commit a build has checked out. -/
def Stage.commit : Stage → Option Commit
  | .cloned c | .replacing c | .removing c _ | .creating c | .created c | .started c | .finishing c => some c
  | .building | .cleaning | .cleaningFound _ => none

/-- The commit is not another one than the build's. -/
def Agrees (sha : Option Commit) (stage : Stage) : Prop :=
  ∀ c, stage.commit = some c → ∀ x, sha = some x → x = c

/-- Stages in which the build's container exists and the build still has to look for its row. -/
def Stage.starting : Stage → Bool
  | .created _ | .started _ => true
  | _ => false

def Stage.isCleaning : Stage → Bool
  | .cleaning | .cleaningFound _ => true
  | _ => false

/-- No close has passed its look for a container. -/
def AllLooking (s : State) : Prop := ∀ k ∈ s.closers, k.stage = .looking

/-- The row is saved while nothing else works on the preview, or while its build has not
checked out another commit; and it was not closed in between. -/
def SaveInTime (s : State) (u : Upsert) : Prop :=
  (u.found = none → s.row = none → s.builds = [] ∧ s.closers = [] ∧ s.closed = false) ∧
    ∀ id, u.found = some id → s.row ≠ none ∧
      (s.row.map Row.id = some id → ∀ b ∈ s.builds, Agrees u.sha b.stage)

/-- The close goes through, or another one is still under way; and a container that is there
is found. -/
def CloseGoesThrough (s : State) (i : Nat) (k : Closer) (reply : Reply) : Prop :=
  (closerStep s k reply = none → s.row = none ∨ s.closers.eraseIdx i ≠ []) ∧
    (k.stage = .looking → reply = .lookupFailed → s.container = none)

/-- The branch is checked out at the commit of the row, and the second look for the row comes
when no close can have missed the container. -/
def BuildInTime (s : State) (b : Build) : Prop :=
  (b.stage = .building → ∀ r, s.row = some r → ∀ x, r.commitSha = some x → x = s.head) ∧
    (∀ c, b.stage.commit = some c → b.stage = .started c → s.row ≠ none → AllLooking s)

/-- The build does not fail with a container that no close will find. -/
def FailsInTime (s : State) (b : Build) : Prop :=
  b.stage.starting = true ∨ b.stage.isCleaning = true →
    s.container = none ∨ (s.row ≠ none ∧ AllLooking s)

def Undisturbed (s : State) : Action → Prop
  | .save i => ∀ u, s.pending[i]? = some u → SaveInTime s u
  | .closer i reply => ∀ k, s.closers[i]? = some k → CloseGoesThrough s i k reply
  | .build id => ∀ b, Table.get Build.row s.builds id = some b → BuildInTime s b
  | .fail id _ => ∀ b, Table.get Build.row s.builds id = some b → FailsInTime s b
  | .push _ | .received _ _ | .abandon _ | .close => True

/-! ## The invariant -/

/-- The commit of a container that a build has created and not yet reported. -/
def Stage.up : Stage → Option Commit
  | .created c | .started c | .finishing c => some c
  | _ => none

/-- Stages whose build will remove the container when its row is gone. -/
def Stage.cleansUp (id : Nat) : Stage → Bool
  | .created _ | .started _ | .cleaning => true
  | .cleaningFound old => old = some id
  | _ => false

/-- A close that will not remove a container any more. -/
def CloserStage.past : CloserStage → Bool
  | .removing none | .deleting => true
  | _ => false

structure Inv (s : State) : Prop where
  single : s.builds.length ≤ 1
  ofRow : ∀ r, s.row = some r → ∀ b ∈ s.builds,
    b.row = r.id ∧ r.status = .building ∧ Agrees r.commitSha b.stage
  closersOf : ∀ r, s.row = some r → ∀ k ∈ s.closers, k.row = r.id
  running : ∀ r, s.row = some r → r.status = .running → s.closers ≠ [] ∨ Serves s r
  up : s.row ≠ none → ∀ b ∈ s.builds, ∀ c, b.stage.up = some c →
    s.closers ≠ [] ∨ ∃ k, s.container = some k ∧ k.commit = c
  missed : s.row ≠ none → ∀ k ∈ s.closers, k.stage.past = true → s.container ≠ none →
    ∃ b ∈ s.builds, b.stage.starting = true
  closed : s.closed = true → s.row = none ∨ s.closers ≠ []
  orphan : s.row = none → ∀ k, s.container = some k → ∃ b ∈ s.builds, b.stage.cleansUp k.id = true

theorem initial_inv (head : Commit) : Inv (initial head) := by
  constructor <;> simp [initial]

theorem Inv.sound {s : State} (h : Inv s) : Sound s := by
  intro hbuilds hclosers
  refine ⟨?_, ?_⟩
  · intro r hr hstatus
    rcases h.running r hr hstatus with hk | hserves
    · exact absurd hclosers hk
    · exact hserves
  · intro hclosed
    rcases h.closed hclosed with hrow | hk
    · cases hcontainer : s.container with
      | none => rfl
      | some k =>
        obtain ⟨b, hb, -⟩ := h.orphan hrow k hcontainer
        rw [hbuilds] at hb
        cases hb
    · exact absurd hclosers hk

/-! ### Changes to one part -/

variable {t : State}

section Parts
variable {s : State}

/-- Nothing of this is about the head, the counters and the requests that are not saved yet. -/
theorem Inv.congr (h : Inv s) (hrow : t.row = s.row) (hcontainer : t.container = s.container)
    (hbuilds : t.builds = s.builds) (hclosers : t.closers = s.closers)
    (hclosed : t.closed = true → s.closed = true) : Inv t where
  single := hbuilds ▸ h.single
  ofRow := by
    rw [hrow, hbuilds]
    exact h.ofRow
  closersOf := by
    rw [hrow, hclosers]
    exact h.closersOf
  running := by
    unfold Serves
    rw [hrow, hclosers, hcontainer]
    exact h.running
  up := by
    rw [hrow, hbuilds, hclosers, hcontainer]
    exact h.up
  missed := by
    rw [hrow, hbuilds, hclosers, hcontainer]
    exact h.missed
  closed := by
    rw [hrow, hclosers]
    exact fun hc => h.closed (hclosed hc)
  orphan := by
    rw [hrow, hbuilds, hcontainer]
    exact h.orphan

theorem Inv.dropContainer (h : Inv s)
    (hrun : ∀ r, s.row = some r → r.status = .running → s.closers ≠ [])
    (hup : s.row ≠ none → ∀ b ∈ s.builds, ∀ c, b.stage.up = some c → s.closers ≠ []) :
    Inv { s with container := none } where
  single := h.single
  ofRow := h.ofRow
  closersOf := h.closersOf
  running := fun r hr hst => Or.inl (hrun r hr hst)
  up := fun hrow b hb c hc => Or.inl (hup hrow b hb c hc)
  missed := fun _ _ _ _ hne => absurd rfl hne
  closed := h.closed
  orphan := fun _ _ hk => by (cases hk)

variable {b : Build}

theorem Inv.toStage (h : Inv s) (hb : s.builds = [b]) {st : Stage}
    (hagree : ∀ r, s.row = some r → Agrees r.commitSha st)
    (hup : s.row ≠ none → ∀ c, st.up = some c →
      s.closers ≠ [] ∨ ∃ k, s.container = some k ∧ k.commit = c)
    (hmissed : s.row ≠ none → ∀ k ∈ s.closers, k.stage.past = true → s.container ≠ none →
      st.starting = true)
    (horphan : s.row = none → ∀ k, s.container = some k → st.cleansUp k.id = true) :
    Inv { s with builds := [⟨b.row, st⟩] } where
  single := by simp
  ofRow := by
    intro r hr b' hb'
    obtain ⟨hid, hstatus, -⟩ := h.ofRow r hr b (by simp [hb])
    rw [mem_singleton.mp hb']
    exact ⟨hid, hstatus, hagree r hr⟩
  closersOf := h.closersOf
  running := h.running
  up := by
    intro hrow b' hb' c hc
    rw [mem_singleton.mp hb'] at hc
    exact hup hrow c hc
  missed := fun hrow k hk hpast hne => ⟨_, mem_singleton_self _, hmissed hrow k hk hpast hne⟩
  closed := h.closed
  orphan := fun hrow k hk => ⟨_, mem_singleton_self _, horphan hrow k hk⟩

theorem Inv.toEnd (h : Inv s) {row : Option Row} (hsame : row.map Row.id = s.row.map Row.id)
    (hrun : ∀ r, row = some r → r.status = .running → s.closers ≠ [] ∨ Serves s r)
    (hmissed : s.row ≠ none → ∀ k ∈ s.closers, k.stage.past = true → s.container = none)
    (horphan : s.row = none → s.container = none) :
    Inv { s with row := row, builds := [] } := by
  have hnone : row = none ↔ s.row = none := by
    rw [← map_eq_none_iff (f := Row.id), hsame, map_eq_none_iff]
  exact {
    single := Nat.zero_le 1
    ofRow := fun _ _ b hb => by (cases hb)
    closersOf := by
      intro r hr k hk
      have hr : row = some r := hr
      rw [hr, map_some] at hsame
      obtain ⟨r', hr', hid⟩ := map_eq_some_iff.mp hsame.symm
      exact (h.closersOf r' hr' k hk).trans hid
    running := hrun
    up := fun _ b hb => by (cases hb)
    missed := fun hrow k hk hpast hne =>
      absurd (hmissed (fun hs => hrow (hnone.mpr hs)) k hk hpast) hne
    closed := fun hc => (h.closed hc).imp hnone.mpr id
    orphan := by
      intro hrow k hk
      have hk : s.container = some k := hk
      rw [horphan (hnone.mp hrow)] at hk
      cases hk }

/-! ### The build -/

theorem Inv.builds_eq (h : Inv s) {id : Nat} (hget : Table.get Build.row s.builds id = some b) :
    s.builds = [b] ∧ b.row = id := by
  obtain ⟨hmem, hid⟩ := Table.mem_of_get hget
  refine ⟨?_, hid⟩
  have hlen := h.single
  match hb : s.builds, hlen, hmem with
  | [b'], _, hmem => rw [mem_singleton.mp hmem]

theorem setStage_eq (hb : s.builds = [b]) (st : Stage) :
    setStage s b.row st = { s with builds := [⟨b.row, st⟩] } := by
  simp [setStage, hb, Table.save]

theorem endBuild_eq (hb : s.builds = [b]) : endBuild s b.row = { s with builds := [] } := by
  simp [endBuild, hb]

theorem mark_map_id (id : Nat) (status : Status) :
    (mark s id status).row.map Row.id = s.row.map Row.id := by
  cases hr : s.row with
  | none => simp [mark, hr]
  | some r =>
    simp only [mark, hr, map_some]
    split <;> rfl

variable {k : Closer}

/-- A close that is past its look has left a container only to a build that will look again. -/
theorem Inv.none_of_past (h : Inv s) (hb : s.builds = [b]) (hst : b.stage.starting = false)
    (hrow : s.row ≠ none) (hk : k ∈ s.closers) (hpast : k.stage.past = true) :
    s.container = none := by
  by_contra hne
  obtain ⟨b', hb', hstarting⟩ := h.missed hrow k hk hpast hne
  rw [hb, mem_singleton] at hb'
  rw [hb', hst] at hstarting
  cases hstarting

theorem Inv.none_of_gone (h : Inv s) (hb : s.builds = [b]) (hst : ∀ id, b.stage.cleansUp id = false)
    (hrow : s.row = none) : s.container = none := by
  cases hcontainer : s.container with
  | none => rfl
  | some k =>
    obtain ⟨b', hb', hcleans⟩ := h.orphan hrow k hcontainer
    rw [hb, mem_singleton] at hb'
    rw [hb', hst] at hcleans
    cases hcleans

theorem Inv.present_of_row (h : Inv s) (hb : s.builds = [b]) {r : Row} (hr : s.row = some r) :
    present s b.row = true := by
  simp [present, hr, (h.ofRow r hr b (by simp [hb])).1]

theorem Inv.not_running (h : Inv s) (hb : s.builds = [b]) {r : Row} (hr : s.row = some r) :
    r.status ≠ .running := by
  rw [(h.ofRow r hr b (by simp [hb])).2.1]
  decide

/-- A failed build: the row is not running, and its container is one a close will find. -/
theorem failBuild_inv (h : Inv s) (hb : s.builds = [b]) (recorded : Bool)
    (hfails : FailsInTime s b) : Inv (failBuild s b.row recorded) := by
  have hcleans : b.stage.starting = false → b.stage.isCleaning = false →
      ∀ id, b.stage.cleansUp id = false := by
    intro hs hc id
    cases hstage : b.stage <;> simp_all [Stage.starting, Stage.isCleaning, Stage.cleansUp]
  have hmissed : s.row ≠ none → ∀ k ∈ s.closers, k.stage.past = true → s.container = none := by
    intro hrow k hk hpast
    cases hst : b.stage.starting with
    | false => exact h.none_of_past hb hst hrow hk hpast
    | true =>
      rcases hfails (Or.inl hst) with hnone | ⟨-, hlooking⟩
      · exact hnone
      · rw [hlooking k hk] at hpast
        cases hpast
  have horphan : s.row = none → s.container = none := by
    intro hrow
    by_cases hlate : b.stage.starting = true ∨ b.stage.isCleaning = true
    · rcases hfails hlate with hnone | ⟨hthere, -⟩
      · exact hnone
      · exact absurd hrow hthere
    · rw [not_or, Bool.not_eq_true, Bool.not_eq_true] at hlate
      exact h.none_of_gone hb (hcleans hlate.1 hlate.2) hrow
  cases recorded with
  | false =>
    have heq : failBuild s b.row false = { s with row := s.row, builds := [] } := endBuild_eq hb
    rw [heq]
    exact h.toEnd rfl (fun r hr hst => absurd hst (h.not_running hb hr)) hmissed horphan
  | true =>
    have heq : failBuild s b.row true =
        { s with row := (mark s b.row .failed).row, builds := [] } := by
      simp [failBuild, endBuild, mark, hb]
    rw [heq]
    refine h.toEnd (mark_map_id b.row .failed) ?_ hmissed horphan
    intro r hr hst
    obtain ⟨r', hr', hmark⟩ := map_eq_some_iff.mp hr
    have hid := (h.ofRow r' hr' b (by simp [hb])).1
    rw [if_pos hid.symm] at hmark
    rw [← hmark] at hst
    cases hst

/-- Before the container is created nothing but the checked out commit matters. -/
theorem Inv.toEarly (h : Inv s) (hb : s.builds = [b]) (hstarting : b.stage.starting = false)
    (hcleans : ∀ id, b.stage.cleansUp id = false) {st : Stage} (hup : st.up = none)
    (hagree : ∀ r, s.row = some r → Agrees r.commitSha st) :
    Inv { s with builds := [⟨b.row, st⟩] } := by
  refine h.toStage hb hagree ?_ ?_ ?_
  · intro _ c hc
    rw [hup] at hc
    cases hc
  · intro hrow k hk hpast hne
    exact absurd (h.none_of_past hb hstarting hrow hk hpast) hne
  · intro hrow k hk
    rw [h.none_of_gone hb hcleans hrow] at hk
    cases hk

/-- A build that removes a container: its row is not shown as running. -/
theorem Inv.dropByBuild (h : Inv s) (hb : s.builds = [b]) (hup : b.stage.up = none) :
    Inv { s with container := none } := by
  refine h.dropContainer (fun r hr hst => absurd hst (h.not_running hb hr)) ?_
  intro _ b' hb' c hc
  rw [hb, mem_singleton] at hb'
  rw [hb', hup] at hc
  cases hc

theorem removeContainer_eq {id : Nat} (h : removeContainer s id = some t) :
    t = { s with container := none } := by
  unfold removeContainer at h
  split at h
  · exact (some.inj h).symm
  · cases h

/-- A build ends without having reported anything. -/
theorem Inv.toSilentEnd (h : Inv s) (hb : s.builds = [b])
    (hmissed : s.row ≠ none → ∀ k ∈ s.closers, k.stage.past = true → s.container = none)
    (horphan : s.row = none → s.container = none) : Inv { s with builds := [] } :=
  h.toEnd rfl (fun _ hr hst => absurd hst (h.not_running hb hr)) hmissed horphan

theorem create_inv (h : Inv s) (hb : s.builds = [b]) {c : Commit}
    (hagree : ∀ r, s.row = some r → Agrees r.commitSha (.created c)) :
    Inv { s with
      container := some ⟨s.nextContainer, c⟩
      nextContainer := s.nextContainer + 1
      builds := [⟨b.row, .created c⟩] } where
  single := Nat.le_refl 1
  ofRow := by
    intro r hr b' hb'
    obtain ⟨hid, hstatus, -⟩ := h.ofRow r hr b (by simp [hb])
    rw [mem_singleton.mp hb']
    exact ⟨hid, hstatus, hagree r hr⟩
  closersOf := h.closersOf
  running := fun r hr hst => absurd hst (h.not_running hb hr)
  up := by
    intro _ b' hb' c' hc'
    rw [mem_singleton.mp hb'] at hc'
    exact Or.inr ⟨_, rfl, some.inj hc'⟩
  missed := fun _ _ _ _ _ => ⟨_, mem_singleton_self _, rfl⟩
  closed := h.closed
  orphan := fun _ _ _ => ⟨_, mem_singleton_self _, rfl⟩

theorem advance_inv (h : Inv s) (hb : s.builds = [b]) (htime : BuildInTime s b) :
    Inv (advance s b) := by
  have hmem : b ∈ s.builds := by simp [hb]
  have hagree : ∀ r, s.row = some r → Agrees r.commitSha b.stage := fun r hr => (h.ofRow r hr b hmem).2.2
  have hpast : b.stage.starting = false →
      s.row ≠ none → ∀ k ∈ s.closers, k.stage.past = true → s.container = none :=
    fun hst hrow k hk hpast => h.none_of_past hb hst hrow hk hpast
  unfold advance
  cases hstage : b.stage with
  | building =>
    simp only [setStage_eq hb]
    refine h.toEarly hb (by rw [hstage]; rfl) (fun _ => by rw [hstage]; rfl) rfl ?_
    intro r hr c hc x hx
    exact (htime.1 hstage r hr x hx).trans (some.inj hc)
  | cloned c =>
    rw [hstage] at hagree
    simp only [setStage_eq hb, endBuild_eq hb]
    split
    · exact h.toEarly hb (by rw [hstage]; rfl) (fun _ => by rw [hstage]; rfl) rfl hagree
    · exact h.toSilentEnd hb (hpast (by rw [hstage]; rfl))
        (h.none_of_gone hb fun _ => by rw [hstage]; rfl)
  | replacing c =>
    rw [hstage] at hagree
    simp only [setStage_eq hb]
    exact h.toEarly hb (by rw [hstage]; rfl) (fun _ => by rw [hstage]; rfl) rfl hagree
  | removing c old =>
    rw [hstage] at hagree
    cases old with
    | none =>
      simp only [setStage_eq hb]
      exact h.toEarly hb (by rw [hstage]; rfl) (fun _ => by rw [hstage]; rfl) rfl hagree
    | some old =>
      simp only []
      split
      · rename_i t ht
        rw [removeContainer_eq ht, setStage_eq (by exact hb)]
        exact (h.dropByBuild hb (by rw [hstage]; rfl)).toEarly hb (by rw [hstage]; rfl)
          (fun _ => by rw [hstage]; rfl) rfl hagree
      · refine failBuild_inv h hb true ?_
        rintro (hs | hs) <;> rw [hstage] at hs <;> cases hs
  | creating c =>
    rw [hstage] at hagree
    simp only []
    split
    · refine failBuild_inv h hb true ?_
      rintro (hs | hs) <;> rw [hstage] at hs <;> cases hs
    · rw [setStage_eq (by exact hb)]
      exact create_inv h hb hagree
  | created c =>
    rw [hstage] at hagree
    simp only [setStage_eq hb]
    refine h.toStage hb hagree ?_ (fun _ _ _ _ _ => rfl) (fun _ _ _ => rfl)
    intro hrow c' hc'
    exact h.up hrow b hmem c' (by rw [hstage]; exact hc')
  | started c =>
    rw [hstage] at hagree
    simp only [setStage_eq hb]
    split
    · rename_i hthere
      have hrow : s.row ≠ none := by
        intro hnone
        simp [present, hnone] at hthere
      refine h.toStage hb hagree ?_ ?_ (fun hnone => absurd hnone hrow)
      · intro _ c' hc'
        exact h.up hrow b hmem c' (by rw [hstage]; exact hc')
      · intro _ k hk hlate
        rw [htime.2 c (by rw [hstage]; rfl) hstage hrow k hk] at hlate
        cases hlate
    · rename_i hgone
      have hrow : s.row = none := by
        cases hr : s.row with
        | none => rfl
        | some r => exact absurd (h.present_of_row hb hr) hgone
      exact h.toStage hb (fun r hr => by (rw [hrow] at hr; cases hr)) (fun hne => absurd hrow hne)
        (fun hne => absurd hrow hne) (fun _ _ _ => rfl)
  | finishing c =>
    rw [hstage] at hagree
    have heq : endBuild (mark s b.row .running) b.row =
        { s with row := (mark s b.row .running).row, builds := [] } := by
      simp [endBuild, mark, hb]
    simp only [heq]
    refine h.toEnd (mark_map_id b.row .running) ?_ (hpast (by rw [hstage]; rfl))
      (h.none_of_gone hb fun _ => by rw [hstage]; rfl)
    intro r hr _
    obtain ⟨r', hr', hmark⟩ := map_eq_some_iff.mp hr
    have hsha : r.commitSha = r'.commitSha := by
      rw [← hmark]
      split <;> rfl
    rcases h.up (by simp [hr']) b hmem c (by rw [hstage]; rfl) with hclosers | ⟨k, hk, hcommit⟩
    · exact Or.inl hclosers
    · refine Or.inr ⟨k, hk, ?_⟩
      intro x hx
      rw [hsha] at hx
      rw [hcommit]
      exact (hagree r' hr' c rfl x hx).symm
  | cleaning =>
    simp only [setStage_eq hb]
    refine h.toStage hb (fun _ _ _ hc => by (cases hc)) (fun _ _ hc => by (cases hc)) ?_ ?_
    · exact fun hrow k hk hlate hne => absurd (hpast (by rw [hstage]; rfl) hrow k hk hlate) hne
    · intro _ k hk
      simp [hk, Stage.cleansUp]
  | cleaningFound old =>
    cases old with
    | none =>
      simp only [endBuild_eq hb]
      exact h.toSilentEnd hb (hpast (by rw [hstage]; rfl))
        (h.none_of_gone hb fun _ => by rw [hstage]; rfl)
    | some old =>
      simp only []
      cases hremove : removeContainer s old with
      | some t =>
        rw [getD_some, removeContainer_eq hremove, endBuild_eq (by exact hb)]
        exact (h.dropByBuild hb (by rw [hstage]; rfl)).toSilentEnd hb (fun _ _ _ _ => rfl) fun _ => rfl
      | none =>
        rw [getD_none, endBuild_eq hb]
        refine h.toSilentEnd hb (hpast (by rw [hstage]; rfl)) ?_
        -- with its row gone, the container is the one that was found
        intro hrow
        cases hcontainer : s.container with
        | none => rfl
        | some k =>
          obtain ⟨b', hb', hcleans⟩ := h.orphan hrow k hcontainer
          rw [hb, mem_singleton] at hb'
          rw [hb', hstage] at hcleans
          simp only [Stage.cleansUp, decide_eq_true_eq] at hcleans
          simp [removeContainer, hcontainer, hcleans] at hremove

/-! ### Events -/

theorem close_inv (h : Inv s) :
    Inv { s with
      closers := s.closers ++ s.row.toList.map fun r => ⟨r.id, .looking⟩
      closed := true } := by
  have hcloser : ∀ k ∈ s.closers ++ s.row.toList.map fun r => ⟨r.id, .looking⟩,
      k ∈ s.closers ∨ (k.stage = .looking ∧ s.row.map Row.id = some k.row) := by
    intro k hk
    rcases mem_append.mp hk with hk | hk
    · exact Or.inl hk
    · obtain ⟨r, hr, rfl⟩ := mem_map.mp hk
      exact Or.inr ⟨rfl, by simp [mem_toList.mp hr]⟩
  have hsome : s.row ≠ none → s.closers ++ (s.row.toList.map fun r => ⟨r.id, .looking⟩) ≠ [] := by
    intro hrow
    obtain ⟨r, hr⟩ := ne_none_iff_exists'.mp hrow
    simp [hr]
  exact {
    single := h.single
    ofRow := h.ofRow
    closersOf := by
      intro r hr k hk
      have hr : s.row = some r := hr
      rcases hcloser k hk with hk | ⟨-, hid⟩
      · exact h.closersOf r hr k hk
      · rw [hr, map_some] at hid
        exact (some.inj hid).symm
    running := fun r hr _ => Or.inl (hsome (by simp [show s.row = some r from hr]))
    up := fun hrow _ _ _ _ => Or.inl (hsome hrow)
    missed := by
      intro hrow k hk hpast
      rcases hcloser k hk with hk | ⟨hlooking, -⟩
      · exact h.missed hrow k hk hpast
      · rw [hlooking] at hpast
        cases hpast
    closed := fun _ => (em (s.row = none)).imp id hsome
    orphan := h.orphan }

/-- The row of the preview is saved with a new commit, and its build is started unless it is
active. -/
theorem startBuild_inv {r : Row} (h : Inv s) (hr : s.row = some r) {sha : Option Commit}
    (hagree : ∀ b ∈ s.builds, Agrees sha b.stage) :
    Inv (startBuild { s with row := some ⟨r.id, sha, .building⟩ } r.id) := by
  have hrow : s.row ≠ none := by simp [hr]
  by_cases hactive : s.builds.any fun b => b.row = r.id
  · have heq : startBuild { s with row := some ⟨r.id, sha, .building⟩ } r.id =
        { s with row := some ⟨r.id, sha, .building⟩ } := if_pos hactive
    rw [heq]
    exact {
      single := h.single
      ofRow := by
        rintro r' hr' b hb
        cases hr'
        exact ⟨(h.ofRow r hr b hb).1, rfl, hagree b hb⟩
      closersOf := by
        rintro r' hr' k hk
        cases hr'
        exact h.closersOf r hr k hk
      running := by
        rintro r' hr' hst
        cases hr'
        cases hst
      up := fun _ => h.up hrow
      missed := fun _ => h.missed hrow
      closed := fun hc => Or.inr ((h.closed hc).resolve_left hrow)
      orphan := fun hnone => by (cases hnone) }
  · have hbuilds : s.builds = [] := by
      refine eq_nil_iff_forall_not_mem.mpr fun b hb => hactive ?_
      exact any_eq_true.mpr ⟨b, hb, by simpa using (h.ofRow r hr b hb).1⟩
    have heq : startBuild { s with row := some ⟨r.id, sha, .building⟩ } r.id =
        { s with row := some ⟨r.id, sha, .building⟩, builds := [⟨r.id, .building⟩] } := by
      simp [startBuild, hbuilds]
    rw [heq]
    exact {
      single := Nat.le_refl 1
      ofRow := by
        rintro r' hr' b hb
        cases hr'
        rw [mem_singleton.mp hb]
        exact ⟨rfl, rfl, fun c hc => by (cases hc)⟩
      closersOf := by
        rintro r' hr' k hk
        cases hr'
        exact h.closersOf r hr k hk
      running := by
        rintro r' hr' hst
        cases hr'
        cases hst
      up := by
        intro _ b hb c hc
        rw [mem_singleton.mp hb] at hc
        cases hc
      missed := by
        intro _ k hk hpast hne
        obtain ⟨b, hb, -⟩ := h.missed hrow k hk hpast hne
        rw [hbuilds] at hb
        cases hb
      closed := fun hc => Or.inr ((h.closed hc).resolve_left hrow)
      orphan := fun hnone => by (cases hnone) }

theorem newRow_inv (hclosers : s.closers = []) (hclosed : s.closed = false)
    (id : Nat) (sha : Option Commit) :
    Inv { s with row := some ⟨id, sha, .building⟩, nextRow := id + 1, builds := [⟨id, .building⟩] } where
  single := Nat.le_refl 1
  ofRow := by
    rintro r hr b hb
    cases hr
    rw [mem_singleton.mp hb]
    exact ⟨rfl, rfl, fun c hc => by (cases hc)⟩
  closersOf := fun r _ k hk => by (rw [hclosers] at hk; cases hk)
  running := by
    rintro r hr hst
    cases hr
    cases hst
  up := by
    intro _ b hb c hc
    rw [mem_singleton.mp hb] at hc
    cases hc
  missed := fun _ k hk => by (rw [hclosers] at hk; cases hk)
  closed := fun hc => by (rw [hclosed] at hc; cases hc)
  orphan := fun hnone => by (cases hnone)

theorem saveUpsert_inv (h : Inv s) {u : Upsert} (htime : SaveInTime s u) : Inv (saveUpsert s u) := by
  unfold saveUpsert
  cases hfound : u.found with
  | none =>
    cases hrow : s.row with
    | some r => exact h
    | none =>
      obtain ⟨hbuilds, hclosers, hclosed⟩ := htime.1 hfound hrow
      have hnew := newRow_inv hclosers hclosed s.nextRow u.sha
      simpa [startBuild, hbuilds] using hnew
  | some id =>
    obtain ⟨hthere, hagree⟩ := htime.2 id hfound
    cases hrow : s.row with
    | none => exact absurd hrow hthere
    | some r =>
      simp only []
      split
      · rename_i hid
        subst hid
        exact startBuild_inv h hrow (hagree (by simp [hrow]))
      · exact h

/-- The closes after one of them went to its next stage. -/
theorem Inv.toCloserStage (h : Inv s) {i : Nat} (hk : s.closers[i]? = some k) {stage : CloserStage}
    (hpast : stage.past = true → k.stage.past = true ∨ s.container = none) :
    Inv { s with closers := s.closers.set i ⟨k.row, stage⟩ } := by
  have hmem : k ∈ s.closers := mem_of_getElem? hk
  have hne : s.closers ≠ [] := ne_nil_of_mem hmem
  have hne' : s.closers.set i ⟨k.row, stage⟩ ≠ [] := by simpa using hne
  exact {
    single := h.single
    ofRow := h.ofRow
    closersOf := by
      intro r hr k' hk'
      rcases mem_or_eq_of_mem_set hk' with hold | rfl
      · exact h.closersOf r hr k' hold
      · exact h.closersOf r hr k hmem
    running := fun _ _ _ => Or.inl hne'
    up := fun _ _ _ _ _ => Or.inl hne'
    missed := by
      intro hrow k' hk' hlate hsome
      rcases mem_or_eq_of_mem_set hk' with hold | rfl
      · exact h.missed hrow k' hold hlate hsome
      · rcases hpast hlate with hlate | hnone
        · exact h.missed hrow k hmem hlate hsome
        · exact absurd hnone hsome
    closed := fun _ => Or.inr hne'
    orphan := h.orphan }

/-- A close gave up; another one is still under way, or the row is gone. -/
theorem Inv.dropCloser (h : Inv s) {i : Nat} (hother : s.row = none ∨ s.closers.eraseIdx i ≠ []) :
    Inv { s with closers := s.closers.eraseIdx i } where
  single := h.single
  ofRow := h.ofRow
  closersOf := fun r hr k hk => h.closersOf r hr k (mem_of_mem_eraseIdx hk)
  running := by
    intro r hr _
    refine Or.inl (hother.resolve_left ?_)
    intro hnone
    rw [hnone] at hr
    cases hr
  up := fun hrow _ _ _ _ => Or.inl (hother.resolve_left hrow)
  missed := fun hrow k hk => h.missed hrow k (mem_of_mem_eraseIdx hk)
  closed := fun _ => hother
  orphan := h.orphan

/-- A close removes the row: a container it has missed belongs to a build that looks again. -/
theorem Inv.deleteRow (h : Inv s) {i : Nat} (hk : s.closers[i]? = some k)
    (hstage : k.stage = .deleting) :
    Inv { s with row := none, closers := s.closers.eraseIdx i } where
  single := h.single
  ofRow := fun _ hr => by (cases hr)
  closersOf := fun _ hr => by (cases hr)
  running := fun _ hr => by (cases hr)
  up := fun hrow => absurd rfl hrow
  missed := fun hrow => absurd rfl hrow
  closed := fun _ => Or.inl rfl
  orphan := by
    intro _ c hc
    have hc : s.container = some c := hc
    by_cases hrow : s.row = none
    · exact h.orphan hrow c hc
    · obtain ⟨b, hb, hstarting⟩ :=
        h.missed hrow k (mem_of_getElem? hk) (by rw [hstage]; rfl) (by simp [hc])
      refine ⟨b, hb, ?_⟩
      cases hst : b.stage <;> rw [hst] at hstarting <;> first | rfl | cases hstarting

theorem closer_inv (h : Inv s) {i : Nat} (hk : s.closers[i]? = some k) {reply : Reply}
    (htime : CloseGoesThrough s i k reply) (ht : step s (.closer i reply) = some t) : Inv t := by
  obtain ⟨hthrows, hlookup⟩ := htime
  have hmem : k ∈ s.closers := mem_of_getElem? hk
  have hne : s.closers ≠ [] := ne_nil_of_mem hmem
  simp only [step, hk, map_some, some.injEq] at ht
  cases hstep : closerStep s k reply with
  | none =>
    rw [hstep] at ht
    exact ht ▸ h.dropCloser (hthrows hstep)
  | some out =>
    rw [hstep] at ht
    unfold closerStep at hstep
    split at hstep
    · cases hstep
    · -- the lookup
      cases hstep
      subst ht
      refine h.toCloserStage hk ?_
      intro hpast
      cases hcontainer : s.container with
      | none => exact Or.inr rfl
      | some c =>
        rw [hcontainer] at hpast
        cases hpast
    · rename_i hstage
      cases hstep
      subst ht
      exact h.toCloserStage hk fun _ => Or.inr (hlookup hstage rfl)
    · rename_i hstage _
      cases hstep
      subst ht
      exact h.toCloserStage hk fun _ => Or.inl (by rw [hstage]; rfl)
    · -- the removal
      obtain ⟨t', ht', hout⟩ := map_eq_some_iff.mp hstep
      cases hout
      rw [removeContainer_eq ht'] at ht
      subst ht
      have hdrop : Inv { s with container := none } :=
        h.dropContainer (fun _ _ _ => hne) (fun _ _ _ _ _ => hne)
      exact hdrop.toCloserStage hk fun _ => Or.inr rfl
    · cases hstep
    · rename_i hstage _
      cases hstep
      subst ht
      cases hr : s.row with
      | none =>
        have hgone : present s k.row = false := by simp [present, hr]
        simp only [hgone, Bool.false_eq_true, if_false]
        exact h.deleteRow hk hstage
      | some r =>
        have hthere : present s k.row = true := by simp [present, hr, h.closersOf r hr k hmem]
        simp only [hthere, if_true]
        exact h.deleteRow hk hstage

end Parts

/-! ## Runs -/

/-- **One step.** -/
theorem step_inv {s : State} {a : Action} (h : Inv s) (htime : Undisturbed s a)
    (hstep : step s a = some t) : Inv t := by
  cases a with
  | push c =>
    cases hstep
    exact h.congr rfl rfl rfl rfl id
  | received sha capped =>
    have ht := some.inj hstep
    split at ht
    · subst ht
      exact h.congr rfl rfl rfl rfl fun hc => by (cases hc)
    · subst ht
      exact h.congr rfl rfl rfl rfl fun hc => by (cases hc)
  | save i =>
    obtain ⟨u, hu, rfl⟩ := map_eq_some_iff.mp hstep
    exact (saveUpsert_inv h (htime u hu)).congr rfl rfl rfl rfl id
  | abandon i =>
    obtain ⟨u, -, rfl⟩ := map_eq_some_iff.mp hstep
    exact h.congr rfl rfl rfl rfl id
  | close =>
    cases hstep
    exact close_inv h
  | closer i reply =>
    obtain ⟨k, hk, -⟩ := map_eq_some_iff.mp hstep
    exact closer_inv h hk (htime k hk) hstep
  | build id =>
    obtain ⟨b, hget, rfl⟩ := map_eq_some_iff.mp hstep
    exact advance_inv h (h.builds_eq hget).1 (htime b hget)
  | fail id recorded =>
    obtain ⟨b, hget, rfl⟩ := map_eq_some_iff.mp hstep
    obtain ⟨hb, rfl⟩ := h.builds_eq hget
    exact failBuild_inv h hb recorded (htime b hget)

/-- **A run of undisturbed steps shows and leaves what it should**, in every state it
reaches. -/
theorem undisturbed_sound (head : Commit) (as : List Action) (s : State)
    (hmeets : Runs.Meets step Undisturbed (initial head) as)
    (hrun : Runs.exec step (initial head) as = some s) : Sound s := by
  have hinv : Inv s :=
    Runs.exec_invariant (fun _ _ _ h htime hstep => step_inv h htime hstep) as (initial head) s
      (initial_inv head) hmeets hrun
  exact hinv.sound

instance (sha : Option Commit) (stage : Stage) : Decidable (Agrees sha stage) :=
  inferInstanceAs (Decidable (∀ c, stage.commit = some c → ∀ x, sha = some x → x = c))

instance (s : State) : Decidable (AllLooking s) :=
  inferInstanceAs (Decidable (∀ k ∈ s.closers, k.stage = .looking))

instance (s : State) (u : Upsert) : Decidable (SaveInTime s u) :=
  inferInstanceAs (Decidable (
    (u.found = none → s.row = none → s.builds = [] ∧ s.closers = [] ∧ s.closed = false) ∧
      ∀ id, u.found = some id → s.row ≠ none ∧
        (s.row.map Row.id = some id → ∀ b ∈ s.builds, Agrees u.sha b.stage)))

instance (s : State) (i : Nat) (k : Closer) (reply : Reply) : Decidable (CloseGoesThrough s i k reply) :=
  inferInstanceAs (Decidable ((closerStep s k reply = none → s.row = none ∨ s.closers.eraseIdx i ≠ []) ∧
    (k.stage = .looking → reply = .lookupFailed → s.container = none)))

instance (s : State) (b : Build) : Decidable (BuildInTime s b) :=
  inferInstanceAs (Decidable (
    (b.stage = .building → ∀ r, s.row = some r → ∀ x, r.commitSha = some x → x = s.head) ∧
      (∀ c, b.stage.commit = some c → b.stage = .started c → s.row ≠ none → AllLooking s)))

instance (s : State) (b : Build) : Decidable (FailsInTime s b) :=
  inferInstanceAs (Decidable (b.stage.starting = true ∨ b.stage.isCleaning = true →
    s.container = none ∨ (s.row ≠ none ∧ AllLooking s)))

instance (s : State) : ∀ a : Action, Decidable (Undisturbed s a)
  | .save i => inferInstanceAs (Decidable (∀ u, s.pending[i]? = some u → SaveInTime s u))
  | .closer i reply =>
    inferInstanceAs (Decidable (∀ k, s.closers[i]? = some k → CloseGoesThrough s i k reply))
  | .build id => inferInstanceAs (Decidable (∀ b, Table.get Build.row s.builds id = some b → BuildInTime s b))
  | .fail id _ => inferInstanceAs (Decidable (∀ b, Table.get Build.row s.builds id = some b → FailsInTime s b))
  | .push _ | .received _ _ | .abandon _ | .close => isTrue trivial

/-- A pull request that is opened, built, pushed to and built again, and closed while the
second build is about to create its container: the build finds its row gone and cleans up. -/
def sampleRun : List Action :=
  [.received (some (js "c1")) false, .save 0] ++ List.replicate 8 (.build 0) ++
    [.push (js "c2"), .received (some (js "c2")) false, .save 0] ++ List.replicate 4 (.build 0) ++
    [.close, .closer 0 .ok, .closer 0 .ok, .closer 0 .ok] ++ List.replicate 5 (.build 0)

theorem undisturbed_sound_sample :
    (Runs.exec step (initial (js "c1")) sampleRun).isSome = true ∧
      ∀ s, Runs.exec step (initial (js "c1")) sampleRun = some s → Sound s :=
  ⟨by decide, fun s hrun => undisturbed_sound (js "c1") sampleRun s (by decide) hrun⟩

/-- A push whose event comes in while the first commit is being built: the row gets the new
commit, no build is started, and the old commit is shown as running. -/
def latePush : List Action :=
  [.received (some (js "c1")) false, .save 0, .build 0, .push (js "c2"),
    .received (some (js "c2")) false, .save 0] ++ List.replicate 7 (.build 0)

theorem event_after_checkout_lost :
    ¬ ∀ (head : Commit) (as : List Action) (s : State),
      Runs.exec step (initial head) as = some s → Sound s := by
  intro h
  have hsound := h (js "c1") latePush
    ⟨js "c2", some ⟨0, some (js "c2"), .running⟩, some ⟨0, js "c1"⟩, 1, 1, [], [], [], false⟩
    (by decide) rfl rfl
  obtain ⟨k, hk, hserves⟩ := hsound.1 _ rfl rfl
  cases hk
  have := hserves (js "c2") rfl
  revert this
  decide

end Aoox.Previews
