import Aoox.ApplicationSettings
import Aoox.WriteBack

/-! # Settings requests and deployments on one row

A settings request loads the row, prepares its copy, asks others, reads the
runner's columns again (`refreshRunnerColumns`) and then saves the whole copy; a
host port that cannot be applied is put back and saved once more.  A deployment
writes only the columns it owns (`persistOutcome`), and the digest only while the
image reference is still the one it pulled.  Any number of both run at once, so a
run is a list of actions in any order.

The refresh covers the runner's columns up to the save, but nothing covers the
settings: the save writes back every column of a copy that may be old.  A request
that reported success then loses what it set to one that never named it
(`setting_reverted`).  It keeps it in every run where each save finds the columns
it did not set as it read them, and no write comes behind a later operation that
set the same column (`success_kept`).
-/
namespace Aoox.Settings

open JsString WriteBack Option

/-- The auto-update baseline of a deployment. -/
structure DigestBaseline where
  imageRef : JsString
  imageDigest : Cell
  imageCheckedAt : Nat

/-- What `persistOutcome` is called with. -/
structure Outcome where
  status : JsString
  currentImage : Option JsString
  baseline : Option DigestBaseline

/-- Where a settings request stands. -/
inductive Phase where
  | checking | ready | saved
  /-- The host port could not be applied; the previous one is set in the copy. -/
  | restoring
  | restored
  /-- Applying the previous one failed too. -/
  | failing
  | failed
  deriving Repr

inductive Op where
  | patch (phase : Phase) (before : Row) (reset : Bool)
  | running
  | decided (o : Outcome)
  | persisted (o : Outcome)
  | recorded

inductive Event where
  | refresh
  | save
  | answer
  | fail
  | restore
  | giveUp
  | outcome (o : Outcome)
  | update
  | updateBaseline
  | conclude (ok : Bool)

inductive Action where
  | patch (p : Nat) (dto : Dto)
  | deploy (p : Nat)
  | event (p : Nat) (e : Event)

structure State where
  table : Table Column Cell
  ops : Nat → Option Op

def initial (row : Row) : State := ⟨Table.initial row, fun _ => none⟩

def nothing : Column → Bool := fun _ => false

/-- The columns of the first update of `persistOutcome`. -/
def outcomeColumns (o : Outcome) : Column → Bool
  | .status => true
  | .currentImage => o.currentImage.isSome
  | _ => false

def baselineColumns : Column → Bool
  | .imageDigest => true
  | .imageCheckedAt => true
  | _ => false

/-- What a deployment gives its columns. -/
def outcomeRow (o : Outcome) : Row
  | .status => .text o.status
  | .currentImage => (o.currentImage.map Cell.text).getD .null
  | .imageDigest => (o.baseline.map DigestBaseline.imageDigest).getD .null
  | .imageCheckedAt => (o.baseline.map fun b => Cell.num b.imageCheckedAt).getD .null
  | _ => .null

def outcomeSets (o : Outcome) (c : Column) : Bool :=
  outcomeColumns o c || (o.baseline.isSome && baselineColumns c)

def written (row : Row) (op : Op) (e : Event) : Option (Column → Bool) :=
  match e, op with
  | .save, .patch .ready _ _ => some fun _ => true
  | .save, .patch .restoring _ _ => some fun _ => true
  | .save, .patch .failing _ _ => some fun _ => true
  | .update, .decided o => some (outcomeColumns o)
  | .updateBaseline, .persisted ⟨_, _, some b⟩ =>
    -- the update is conditional on the reference that was pulled
    some (if row (.setting .imageRef) = .text b.imageRef then baselineColumns else nothing)
  | _, _ => none

/-- Where an operation stands after it has written. -/
def afterWrite : Op → Op
  | .patch .ready before reset => .patch .saved before reset
  | .patch .restoring before reset => .patch .restored before reset
  | .patch _ before reset => .patch .failed before reset
  | .decided o => .persisted o
  | _ => .recorded

/-- The move the request makes is on record in the copy it saves. -/
def movedRow (before app : Row) (pending : Cell) : Row := fun _ =>
  .list (PreviousDaemons.recordMove pending.daemons (before (.setting .serverId)).serverId
    (app (.setting .serverId)).serverId)

def movedSets (before app : Row) : Column → Bool
  | .previousDaemons => app (.setting .serverId) ≠ before (.setting .serverId)
  | _ => false

def statusOnly : Column → Bool
  | .status => true
  | _ => false

/-- What an operation does to its own copy: the columns it reads again, the ones
it sets, and where it then stands. -/
def revised (row : Row) (op : Op) (app : Row) (e : Event) :
    Option ((Column → Bool) × Row × (Column → Bool) × Op) :=
  match e, op with
  | .refresh, .patch .checking before reset =>
    some (refreshed reset, movedRow before app (row .previousDaemons), movedSets before app,
      .patch .ready before reset)
  | .restore, .patch .saved before reset =>
    if appliesHostPort before app then some (nothing, before, ports, .patch .restoring before reset)
    else none
  | .giveUp, .patch .restored before reset =>
    some (nothing, fun _ => .text (js "error"), statusOnly, .patch .failing before reset)
  | .outcome o, .running => some (nothing, outcomeRow o, outcomeSets o, .decided o)
  | _, _ => none

/-- How an operation ends. -/
def ended (op : Op) (e : Event) : Option Bool :=
  match e, op with
  | .answer, .patch .saved _ _ => some true
  | .fail, .patch _ _ _ => some false
  | .conclude ok, .recorded => some ok
  | .conclude ok, .persisted ⟨_, _, none⟩ => some ok
  | .conclude false, .running => some false
  | .conclude false, .decided _ => some false
  | .conclude false, .persisted _ => some false
  | _, _ => none

/-- One event of operation `p`, which holds copy `k`. -/
def stepOf (s : State) (p : Nat) (op : Op) (k : Copy Column Cell) (e : Event) : Option State :=
  match written s.table.row op e, revised s.table.row op k.values e, ended op e with
  | some cols, _, _ =>
    some ⟨s.table.write p k cols, Function.update s.ops p (some (afterWrite op))⟩
  | none, some (cols, own, sets, op'), _ =>
    some ⟨s.table.reread p k cols own sets, Function.update s.ops p (some op')⟩
  | none, none, some ok => some ⟨s.table.finish p k ok, Function.update s.ops p none⟩
  | none, none, none => none

def step (s : State) : Action → Option State
  | .patch p dto =>
    if (s.ops p).isSome then none else
    match prepare dto s.table.row with
    | .error _ => some s
    | .ok app =>
      some
        { table := s.table.start p app (sets dto s.table.row app)
          ops := Function.update s.ops p
            (some (.patch .checking s.table.row (digestReset dto s.table.row))) }
  | .deploy p =>
    if (s.ops p).isSome then none
    else some ⟨s.table.start p s.table.row nothing, Function.update s.ops p (some .running)⟩
  | .event p e =>
    match s.ops p, s.table.held p with
    | some op, some k => stepOf s p op k e
    | _, _ => none

/-- No write covers a column that others have set since the writer read it, or
comes behind a later operation that set the same column. -/
def Undisturbed (s : State) : Action → Prop
  | .event p e => ∀ op k cols, s.ops p = some op → s.table.held p = some k →
      written s.table.row op e = some cols → k.Fresh s.table cols
  | _ => True

theorem step_table {s s' : State} {a : Action} (h : step s a = some s') :
    s'.table = s.table ∨ (∃ p own sets, s'.table = s.table.start p own sets) ∨
      ∃ p e op k, a = .event p e ∧ s.ops p = some op ∧ s.table.held p = some k ∧
        ((∃ cols, written s.table.row op e = some cols ∧ s'.table = s.table.write p k cols) ∨
          (∃ cols own sets, s'.table = s.table.reread p k cols own sets) ∨
          ∃ ok, s'.table = s.table.finish p k ok) := by
  cases a with
  | patch p dto =>
    simp only [step] at h
    split at h
    · cases h
    · split at h
      · obtain rfl := some.inj h
        exact Or.inl rfl
      · obtain rfl := some.inj h
        exact Or.inr (Or.inl ⟨p, _, _, rfl⟩)
  | deploy p =>
    simp only [step] at h
    split at h
    · cases h
    · obtain rfl := some.inj h
      exact Or.inr (Or.inl ⟨p, _, _, rfl⟩)
  | event p e =>
    simp only [step] at h
    split at h
    · next op k hop hk =>
      refine Or.inr (Or.inr ⟨p, e, op, k, rfl, hop, hk, ?_⟩)
      unfold stepOf at h
      split at h
      · obtain rfl := some.inj h
        exact Or.inl ⟨_, ‹_›, rfl⟩
      · obtain rfl := some.inj h
        exact Or.inr (Or.inl ⟨_, _, _, rfl⟩)
      · obtain rfl := some.inj h
        exact Or.inr (Or.inr ⟨_, rfl⟩)
      · cases h
    · cases h

theorem inv_step (s : State) (a : Action) (s' : State) (hinv : Inv s.table)
    (hcond : Undisturbed s a) (h : step s a = some s') : Inv s'.table := by
  rcases step_table h with heq | ⟨p, own, sets, heq⟩ | ⟨p, e, op, k, rfl, hop, hk, hdid⟩
  · rwa [heq]
  · rw [heq]
    exact hinv.start p own sets
  · rcases hdid with ⟨cols, hw, heq⟩ | ⟨cols, own, sets, heq⟩ | ⟨ok, heq⟩
    · rw [heq]
      exact hinv.write hk (hcond op k cols hop hk hw)
    · rw [heq]
      exact hinv.reread hk cols own sets
    · rw [heq]
      exact hinv.finish hk ok

/-- **What a successful operation set is kept** in every state of a run whose
writes are undisturbed. -/
theorem success_kept (row : Row) (as : List Action) (s : State)
    (hmeets : Runs.Meets step Undisturbed (initial row) as)
    (hexec : Runs.exec step (initial row) as = some s) : s.table.Kept :=
  (Runs.exec_invariant inv_step as (initial row) s (inv_initial row) hmeets hexec).kept

/-- An event that writes nothing disturbs nobody. -/
theorem undisturbed_of_written_eq_none {s : State} {p : Nat} {e : Event}
    (h : ∀ op, s.ops p = some op → written s.table.row op e = none) :
    Undisturbed s (.event p e) := by
  intro op k cols hop _ hw
  rw [h op hop] at hw
  cases hw

/-- A deployed application built from git. -/
def shop : Row
  | .setting .name => .text (js "shop")
  | .setting .sourceType => .text (js "git")
  | .setting .gitUrl => .text (js "https://git/shop")
  | .setting .env => .text []
  | .setting .deployMode => .text (js "container")
  | .status => .text (js "running")
  | .currentImage => .text (js "shop:1")
  | .previousDaemons => .list []
  | _ => .null

def rename : Dto
  | .name => some (.text (js "store"))
  | _ => none

def newEnv : Dto
  | .env => some (.text (js "A=1"))
  | _ => none

/-- A deployment settles while a request is asking others. -/
def overlapping : List Action :=
  [.patch 0 rename, .deploy 1, .event 1 (.outcome ⟨js "running", some (js "shop:2"), none⟩),
    .event 1 .update, .event 1 (.conclude true), .event 0 .refresh, .event 0 .save,
    .event 0 .answer]

theorem success_kept_overlapping : ∃ s, Runs.exec step (initial shop) overlapping = some s ∧
    s.table.row .currentImage = .text (js "shop:2") ∧ s.table.Kept := by
  refine ⟨_, rfl, rfl, success_kept shop overlapping _ ?_ rfl⟩
  refine Runs.meets_cons rfl trivial (Runs.meets_cons rfl trivial ?_)
  refine Runs.meets_cons rfl (undisturbed_of_written_eq_none fun op hop => ?_) ?_
  · cases hop
    rfl
  refine Runs.meets_cons rfl ?_ ?_
  · rintro op k cols ⟨⟩ ⟨⟩ ⟨⟩
    refine ⟨fun c hc hs => ?_, fun c hc hs t ht => ?_⟩
    · rfl
    · cases ht
  refine Runs.meets_cons rfl (undisturbed_of_written_eq_none fun op hop => ?_) ?_
  · cases hop
    rfl
  refine Runs.meets_cons rfl (undisturbed_of_written_eq_none fun op hop => ?_) ?_
  · cases hop
    rfl
  refine Runs.meets_cons rfl ?_ ?_
  · -- the columns the deployment has set are the ones the refresh has read again
    rintro op k cols ⟨⟩ ⟨⟩ ⟨⟩
    refine ⟨fun c hc hs => ?_, fun c hc hs t ht => ?_⟩
    · cases c <;> rfl
    · cases c with
      | setting s => cases ht
      | _ => cases hs
  refine Runs.meets_cons rfl (undisturbed_of_written_eq_none fun op hop => ?_) trivial
  · cases hop
    rfl

/-- Two requests load the row; the second saves after the first has answered. -/
def crossing : List Action :=
  [.patch 0 rename, .patch 1 newEnv, .event 0 .refresh, .event 0 .save, .event 0 .answer,
    .event 1 .refresh, .event 1 .save]

/-- The second request never named the column it puts back. -/
theorem setting_reverted :
    ¬ ∀ (row : Row) (as : List Action) (s : State),
      Runs.exec step (initial row) as = some s → s.table.Kept := by
  intro h
  have hkept := h shop crossing _ rfl
  rcases hkept _ (List.mem_singleton_self _) (.setting .name) (.text (js "store")) rfl with
    hrow | ⟨t, ht, hlt⟩
  · revert hrow
    decide
  · revert t
    decide

end Aoox.Settings
