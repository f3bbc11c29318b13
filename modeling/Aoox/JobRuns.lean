import Aoox.Runs

/-! # Runs of scheduled jobs

A tick of the scheduler and a manual request look the job up, skip it when it is marked
active, and start a run: the row of the run is inserted, and only then the job is marked
and the run executes, detached; the mark is removed when the run ends.  Between the look
at the mark and the mark itself lies an awaited insert.  Two starts that both looked
before either had marked overlap, and the run that ends first takes the mark of the other
away.

`step` is any number of ticks and requests, for any jobs.  Each job has at most one run,
and its mark exactly while there is one, in every state of a process exactly when no
insert of a run's row completes while the job is active (`exclusive_iff`).
-/
open Function
namespace Aoox.JobRuns

/-- The columns of a job that a tick reads. -/
structure Job where
  id : Nat
  enabled : Bool

/-- A start of a job, from the look at the mark on. -/
inductive Phase where
  /-- The row of the run is being inserted. -/
  | inserting
  | executing

structure State where
  /-- `active`, the ids of the jobs that are marked. -/
  active : Nat → Bool
  /-- The starts under way and the jobs they are for. -/
  runs : Nat → Option (Nat × Phase)

inductive Action where
  | tick (n : Nat) (job : Option Job)
  /-- A manual request has looked the job up; `none` when it is not the caller's. -/
  | run (n : Nat) (job : Option Job)
  /-- The insert of the run's row has ended. -/
  | inserted (n : Nat) (ok : Bool)
  /-- The run has ended, one way or the other. -/
  | finished (n : Nat)

def initial : State := ⟨fun _ => false, fun _ => none⟩

def State.isActive (s : State) (id : Nat) : Bool := s.active id

/-- `start` up to its `await`. -/
def State.start (s : State) (n : Nat) (job : Job) : State :=
  { s with runs := Function.update s.runs n (some (job.id, .inserting)) }

def step (s : State) : Action → Option State
  | .tick n job =>
    if (s.runs n).isSome then none
    else
      match job with
      | none => some s
      | some job => some (if !job.enabled || s.isActive job.id then s else s.start n job)
  | .run n job =>
    if (s.runs n).isSome then none
    else
      match job with
      | none => some s
      | some job => some (if s.isActive job.id then s else s.start n job)
  | .inserted n ok =>
    match s.runs n with
    | some (id, .inserting) =>
      if ok then
        -- only now, behind the await, is the job marked
        some ⟨Function.update s.active id true,
          Function.update s.runs n (some (id, .executing))⟩
      else some { s with runs := Function.update s.runs n none }
    | _ => none
  | .finished n =>
    match s.runs n with
    | some (id, .executing) =>
      some ⟨Function.update s.active id false, Function.update s.runs n none⟩
    | _ => none

/-- The start `n` is a run of the job that executes. -/
def Executes (s : State) (n id : Nat) : Prop := s.runs n = some (id, .executing)

structure Exclusive (s : State) : Prop where
  atMostOne : ∀ id n m, Executes s n id → Executes s m id → n = m
  marked : ∀ id, s.isActive id = true ↔ ∃ n, Executes s n id

/-- A run is not entered while its job is active. -/
def Unmarked (s : State) : Action → Prop
  | .inserted n ok => ok = true → ∀ id, s.runs n = some (id, .inserting) → s.isActive id = false
  | .tick _ _ | .run _ _ | .finished _ => True

variable {s s' : State}

theorem exclusive_initial : Exclusive initial where
  atMostOne id n m h := by cases h
  marked id := by
    constructor
    · intro h
      cases h
    · rintro ⟨n, hn⟩
      cases hn

/-- Starts that do not execute do not matter. -/
theorem Exclusive.of_executes (h : Exclusive s) (hactive : s'.active = s.active)
    (hexec : ∀ n id, Executes s' n id ↔ Executes s n id) : Exclusive s' where
  atMostOne id n m hn hm := h.atMostOne id n m ((hexec n id).mp hn) ((hexec m id).mp hm)
  marked id := by
    simp only [State.isActive, hactive, hexec]
    exact h.marked id

theorem Exclusive.start (h : Exclusive s) {n : Nat} (hfree : ¬ (s.runs n).isSome) (job : Job) :
    Exclusive (s.start n job) := by
  refine h.of_executes rfl ?_
  intro m id
  by_cases hm : m = n
  · subst hm
    have hnone : s.runs m = none := by simpa using hfree
    simp [Executes, State.start, hnone]
  · simp [Executes, State.start, update_of_ne hm]

theorem Exclusive.failed (h : Exclusive s) {n id : Nat} (hn : s.runs n = some (id, .inserting)) :
    Exclusive { s with runs := update s.runs n none } := by
  refine h.of_executes rfl ?_
  intro m id'
  by_cases hm : m = n
  · subst hm
    simp [Executes, hn]
  · simp [Executes, update_of_ne hm]

theorem Exclusive.enter (h : Exclusive s) {n id : Nat} (hn : s.runs n = some (id, .inserting))
    (hfree : s.isActive id = false) :
    Exclusive ⟨update s.active id true, update s.runs n (some (id, .executing))⟩ := by
  have hnone : ∀ m, ¬ Executes s m id := by
    intro m hm
    rw [(h.marked id).mpr ⟨m, hm⟩] at hfree
    cases hfree
  have hcases : ∀ m id', Executes ⟨update s.active id true,
      update s.runs n (some (id, .executing))⟩ m id' ↔ (m = n ∧ id' = id) ∨ Executes s m id' := by
    intro m id'
    by_cases hm : m = n
    · subst hm
      simp [Executes, hn, eq_comm]
    · simp [Executes, hm]
  constructor
  · intro id' m m' hm hm'
    rcases (hcases m id').mp hm with ⟨rfl, rfl⟩ | hold
    · rcases (hcases m' id').mp hm' with ⟨rfl, -⟩ | hold'
      · rfl
      · exact absurd hold' (hnone m')
    · rcases (hcases m' id').mp hm' with ⟨rfl, rfl⟩ | hold'
      · exact absurd hold (hnone m)
      · exact h.atMostOne id' m m' hold hold'
  · intro id'
    by_cases hid : id' = id
    · subst hid
      simp only [State.isActive, update_self, true_iff]
      exact ⟨n, (hcases n id').mpr (Or.inl ⟨rfl, rfl⟩)⟩
    · simp only [State.isActive, update_of_ne hid, hcases, hid, and_false, false_or]
      exact h.marked id'

/-- A run that ends was the one its job was marked for. -/
theorem Exclusive.leave (h : Exclusive s) {n id : Nat} (hn : Executes s n id) :
    Exclusive ⟨update s.active id false, update s.runs n none⟩ := by
  have hcases : ∀ m id', Executes ⟨update s.active id false,
      update s.runs n none⟩ m id' ↔ m ≠ n ∧ Executes s m id' := by
    intro m id'
    by_cases hm : m = n
    · subst hm
      simp [Executes]
    · simp [Executes, hm]
  constructor
  · intro id' m m' hm hm'
    exact h.atMostOne id' m m' ((hcases m id').mp hm).2 ((hcases m' id').mp hm').2
  · intro id'
    by_cases hid : id' = id
    · subst hid
      simp only [State.isActive, update_self, Bool.false_eq_true, false_iff]
      rintro ⟨m, hm⟩
      obtain ⟨hne, hold⟩ := (hcases m id').mp hm
      exact hne (h.atMostOne id' m n hold hn)
    · simp only [State.isActive, update_of_ne hid, hcases]
      rw [← State.isActive, h.marked id']
      constructor
      · rintro ⟨m, hm⟩
        refine ⟨m, ?_, hm⟩
        rintro rfl
        rw [Executes, hn] at hm
        cases hm
        exact hid rfl
      · rintro ⟨m, -, hm⟩
        exact ⟨m, hm⟩

theorem Exclusive.step {a : Action} (h : Exclusive s) (ha : Unmarked s a)
    (hstep : step s a = some s') : Exclusive s' := by
  cases a with
  | tick n job =>
    simp only [JobRuns.step] at hstep
    split at hstep
    · cases hstep
    · rename_i hfree
      split at hstep
      · cases hstep
        exact h
      · rename_i job
        cases hstep
        split
        · exact h
        · exact h.start hfree job
  | run n job =>
    simp only [JobRuns.step] at hstep
    split at hstep
    · cases hstep
    · rename_i hfree
      split at hstep
      · cases hstep
        exact h
      · rename_i job
        cases hstep
        split
        · exact h
        · exact h.start hfree job
  | inserted n ok =>
    simp only [JobRuns.step] at hstep
    split at hstep
    · rename_i id hn
      split at hstep
      · rename_i hok
        cases hstep
        exact h.enter hn (ha hok id hn)
      · cases hstep
        exact h.failed hn
    · cases hstep
  | finished n =>
    simp only [JobRuns.step] at hstep
    split at hstep
    · rename_i id hn
      cases hstep
      exact h.leave hn
    · cases hstep

/-- A run that is entered while its job is active is the second one. -/
theorem Exclusive.breaks {a : Action} (h : Exclusive s) (ha : ¬ Unmarked s a) :
    ∃ s', JobRuns.step s a = some s' ∧ ¬ Exclusive s' := by
  cases a with
  | inserted n ok =>
    simp only [Unmarked, not_forall] at ha
    obtain ⟨rfl, id, hn, hactive⟩ := ha
    obtain ⟨m, hm⟩ := (h.marked id).mp (by simpa using hactive)
    have hne : m ≠ n := by
      rintro rfl
      rw [Executes, hn] at hm
      cases hm
    refine ⟨⟨update s.active id true, update s.runs n (some (id, .executing))⟩, ?_, ?_⟩
    · simp only [JobRuns.step, hn, if_true]
    · intro hexcl
      refine hne (hexcl.atMostOne id m n ?_ (update_self _ _ _))
      exact (update_of_ne hne _ _).trans hm
  | tick n job => exact absurd trivial ha
  | run n job => exact absurd trivial ha
  | finished n => exact absurd trivial ha

/-- **At most one run of each job, and the mark exactly while there is one**, in every state
of a run of the process exactly when no start completes its insert while its job is active. -/
theorem exclusive_iff (as : List Action) :
    Runs.Throughout step Exclusive initial as ↔ Runs.Meets step Unmarked initial as :=
  Runs.throughout_iff_meets (fun _ _ _ h ha hstep => h.step ha hstep) (fun _ h => h)
    (fun _ _ h ha => h.breaks ha) as initial exclusive_initial

/-- A tick and a manual request overlap: two runs execute, and when the first ends the
second goes on without the mark. -/
theorem tick_and_request_overlap :
    ¬ ∀ (as : List Action) (s : State), Runs.exec step initial as = some s → Exclusive s := by
  intro h
  have hexcl := h [.tick 1 (some ⟨7, true⟩), .run 2 (some ⟨7, true⟩), .inserted 1 true,
    .inserted 2 true, .finished 1] _ rfl
  exact absurd ((hexcl.marked 7).mpr ⟨2, rfl⟩) (by decide)

end Aoox.JobRuns
