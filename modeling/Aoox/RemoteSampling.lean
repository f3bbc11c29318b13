import Aoox.Assoc
import Aoox.JsString
import Aoox.Runs

/-! # The readings of remote containers

The monitoring samples the containers of every server in rounds.  A round lists the running
containers of its server, drops those that are gone, and takes two statistics of each of the
others a second apart, three containers at a time.  A round that fails or takes too long is
abandoned, and the readings of its server are dropped; they are dropped as well when the
server is deleted.

Abandoning a round does not end it.  Its list and its statistics still come in, and what
they bring is written whether or not the server has been dropped, or listed again without
the container, in between.  What is held belongs to the list of a server that was not
dropped since exactly when no list and no reading comes in too late (`current_iff_timely`).
-/
namespace Aoox.RemoteSampling
open JsString Function

def HISTORY_POINTS : Nat := 240

/-- Containers of one server sampled at the same time. -/
def REMOTE_CONCURRENCY : Nat := 3

abbrev Labels := List (JsString × JsString)

structure Container (Id : Type) where
  Id : Id
  Labels : Option Labels

/-- A container that is being sampled. -/
structure Worker (Id Stats : Type) where
  id : Id
  /-- The first of its two statistics. -/
  first : Option Stats

/-- Where the work of a round stands. -/
inductive Stage (Id Stats : Type) where
  /-- It waits for the handle of the server or for the list. -/
  | listing
  | failed
  | sampling (queue : List (Container Id)) (workers : List (Worker Id Stats))

/-- Where the promise of a round stands, which its time limit settles too. -/
inductive Watch where
  | pending
  /-- It was rejected, and the readings of the server were dropped. -/
  | caught
  | settled

structure Round (ServerId Id Stats : Type) where
  serverId : ServerId
  stage : Stage Id Stats
  watch : Watch
  /-- How many times its server had been dropped when it began. -/
  begun : Nat

structure State (ServerId Id Stats Metrics : Type) where
  remoteHistory : Id → Option (List Metrics)
  remoteInfo : Id → Option (ServerId × Labels)
  remoteByServer : List (ServerId × List Id)
  remoteRunning : List ServerId
  rounds : List (Round ServerId Id Stats)
  /-- Calls of `sampleRemote` that wait for the servers. -/
  waiting : Nat
  /-- How many times a server was dropped. -/
  drops : ServerId → Nat
  /-- The list that was last applied for a server, unless it was dropped since. -/
  current : ServerId → Option (List Id)

variable {ServerId Id Stats Metrics : Type}

def initial : State ServerId Id Stats Metrics where
  remoteHistory _ := none
  remoteInfo _ := none
  remoteByServer := []
  remoteRunning := []
  rounds := []
  waiting := 0
  drops _ := 0
  current _ := none

inductive Action (ServerId Id Stats : Type) where
  | sampleRemote
  | servers (ids : Option (List ServerId))
  | listed (round : Nat) (containers : Option (List (Container Id)))
  /-- A call of `containerStats` of a worker is answered. -/
  | stats (round worker : Nat) (answer : Option Stats)
  /-- The round has failed or its time is up. -/
  | rejected (round : Nat)
  | settled (round : Nat)

def next (queue : List (Container Id)) (workers : List (Worker Id Stats)) (worker : Nat) :
    Stage Id Stats :=
  match queue with
  | [] => .sampling [] (workers.eraseIdx worker)
  | c :: queue => .sampling queue (workers.set worker ⟨c.Id, none⟩)

/-- The workers of a round begin. -/
def begin (containers : List (Container Id)) : Stage Id Stats :=
  .sampling (containers.drop REMOTE_CONCURRENCY)
    ((containers.take REMOTE_CONCURRENCY).map fun c => ⟨c.Id, none⟩)

def setInfo [DecidableEq Id] (serverId : ServerId) (remoteInfo : Id → Option (ServerId × Labels))
    (containers : List (Container Id)) : Id → Option (ServerId × Labels) :=
  containers.foldl
    (fun info c => Function.update info c.Id (some (serverId, c.Labels.getD []))) remoteInfo

namespace State
variable [DecidableEq ServerId] [DecidableEq Id] (s : State ServerId Id Stats Metrics)

def setRound (round : Nat) (r : Round ServerId Id Stats) : State ServerId Id Stats Metrics :=
  { s with rounds := s.rounds.set round r }

def dropContainer (id : Id) : State ServerId Id Stats Metrics :=
  { s with
    remoteHistory := Function.update s.remoteHistory id none
    remoteInfo := Function.update s.remoteInfo id none }

def dropContainers (ids : List Id) : State ServerId Id Stats Metrics := ids.foldl dropContainer s

def dropServerReadings (serverId : ServerId) : State ServerId Id Stats Metrics :=
  { s.dropContainers ((Assoc.get s.remoteByServer serverId).getD []) with
    remoteByServer := Assoc.set s.remoteByServer serverId []
    drops := Function.update s.drops serverId (s.drops serverId + 1)
    current := Function.update s.current serverId none }

def forgetServer (serverId : ServerId) : State ServerId Id Stats Metrics :=
  let s := s.dropServerReadings serverId
  { s with remoteByServer := Assoc.erase s.remoteByServer serverId }

/-- A round of a server, unless one is running. -/
def start (serverId : ServerId) : State ServerId Id Stats Metrics :=
  if serverId ∈ s.remoteRunning then s
  else
    { s with
      remoteRunning := serverId :: s.remoteRunning
      rounds := s.rounds ++ [⟨serverId, .listing, .pending, s.drops serverId⟩] }

/-- The rest of `sampleRemote`. -/
def sampleServers (ids : List ServerId) : State ServerId Id Stats Metrics :=
  let s := ((s.remoteByServer.map Prod.fst).filter fun id => id ∉ ids).foldl forgetServer s
  ids.foldl start s

/-- The first half of `sampleServerUnbounded`, behind its calls. -/
def apply (r : Round ServerId Id Stats) (containers : List (Container Id)) :
    State ServerId Id Stats Metrics :=
  let live := containers.map (·.Id)
  let known := (Assoc.get s.remoteByServer r.serverId).getD []
  let s := s.dropContainers (known.filter fun id => id ∉ live)
  { s with
    remoteByServer := Assoc.set s.remoteByServer r.serverId live
    remoteInfo := setInfo r.serverId s.remoteInfo containers
    -- a round that began in front of the drop does not undo it
    current :=
      if r.begun = s.drops r.serverId ∨ (s.current r.serverId).isSome then
        Function.update s.current r.serverId (some live)
      else s.current }

/-- The end of `sampleContainer`. -/
def record (id : Id) (metrics : Metrics) : State ServerId Id Stats Metrics :=
  let points := (s.remoteHistory id).getD [] ++ [metrics]
  { s with
    remoteHistory := Function.update s.remoteHistory id
      (some (points.drop (points.length - HISTORY_POINTS))) }

end State

variable [DecidableEq ServerId] [DecidableEq Id]

def step (computeMetrics : Stats → Stats → Metrics) (s : State ServerId Id Stats Metrics) :
    Action ServerId Id Stats → Option (State ServerId Id Stats Metrics)
  | .sampleRemote => some { s with waiting := s.waiting + 1 }
  | .servers ids =>
    if s.waiting = 0 then none
    else
      let s := { s with waiting := s.waiting - 1 }
      match ids with
      | none => some s
      | some ids => some (s.sampleServers ids)
  | .listed round containers =>
    match s.rounds[round]? with
    | some ⟨serverId, .listing, watch, begun⟩ =>
      match containers with
      | none => some (s.setRound round ⟨serverId, .failed, watch, begun⟩)
      | some containers =>
        some ((s.apply ⟨serverId, .listing, watch, begun⟩ containers).setRound round
          ⟨serverId, begin containers, watch, begun⟩)
    | _ => none
  | .stats round worker answer =>
    match s.rounds[round]? with
    | some ⟨serverId, .sampling queue workers, watch, begun⟩ =>
      match workers[worker]?, answer with
      | none, _ => none
      | some _, none => some (s.setRound round ⟨serverId, next queue workers worker, watch, begun⟩)
      | some ⟨id, none⟩, some first =>
        some (s.setRound round
          ⟨serverId, .sampling queue (workers.set worker ⟨id, some first⟩), watch, begun⟩)
      | some ⟨id, some first⟩, some second =>
        some ((s.record id (computeMetrics first second)).setRound round
          ⟨serverId, next queue workers worker, watch, begun⟩)
    | _ => none
  | .rejected round =>
    match s.rounds[round]? with
    | some ⟨_, .sampling [] [], .pending, _⟩ => none
    | some ⟨serverId, stage, .pending, begun⟩ =>
      some ((s.dropServerReadings serverId).setRound round ⟨serverId, stage, .caught, begun⟩)
    | _ => none
  | .settled round =>
    match s.rounds[round]? with
    | some ⟨serverId, .sampling [] [], .pending, begun⟩ =>
      some (State.setRound { s with remoteRunning := s.remoteRunning.filter (· ≠ serverId) } round
        ⟨serverId, .sampling [] [], .settled, begun⟩)
    | some ⟨serverId, stage, .caught, begun⟩ =>
      some (State.setRound { s with remoteRunning := s.remoteRunning.filter (· ≠ serverId) } round
        ⟨serverId, stage, .settled, begun⟩)
    | _ => none

/-! ## What is asked of it -/

/-- The container is in the list last applied for some server that was not dropped since. -/
def Listed (s : State ServerId Id Stats Metrics) (id : Id) : Prop :=
  ∃ serverId list, s.current serverId = some list ∧ id ∈ list

/-- There are readings or labels of the container. -/
def Held (s : State ServerId Id Stats Metrics) (id : Id) : Prop :=
  (s.remoteHistory id).isSome ∨ (s.remoteInfo id).isSome

def Current (s : State ServerId Id Stats Metrics) : Prop := ∀ id, Held s id → Listed s id

/-- A reading comes in while its container is listed, and so does a list of a server that was
dropped behind the beginning of its round. -/
def Timely (s : State ServerId Id Stats Metrics) : Action ServerId Id Stats → Prop
  | .listed round (some containers) => ∀ serverId watch begun,
      s.rounds[round]? = some ⟨serverId, .listing, watch, begun⟩ →
      begun ≠ s.drops serverId → s.current serverId = none → ∀ c ∈ containers, Listed s c.Id
  | .stats round worker (some _) => ∀ serverId queue workers watch begun id first,
      s.rounds[round]? = some ⟨serverId, .sampling queue workers, watch, begun⟩ →
      workers[worker]? = some ⟨id, some first⟩ → Listed s id
  | _ => True

structure Inv (s : State ServerId Id Stats Metrics) : Prop where
  held : Current s
  /-- What was last applied for a server is what the next round compares with. -/
  lists : ∀ {serverId list}, s.current serverId = some list →
    Assoc.get s.remoteByServer serverId = some list

variable {s : State ServerId Id Stats Metrics}

/-! ## What is dropped -/

omit [DecidableEq ServerId] in
theorem dropContainers_eq (ids : List Id) : ∀ s : State ServerId Id Stats Metrics,
    s.dropContainers ids = { s with
        remoteHistory := fun id => if id ∈ ids then none else s.remoteHistory id
        remoteInfo := fun id => if id ∈ ids then none else s.remoteInfo id } := by
  induction ids with
  | nil =>
    intro s
    simp [State.dropContainers]
  | cons id ids ih =>
    intro s
    show (s.dropContainer id).dropContainers ids = _
    rw [ih]
    simp only [State.dropContainer, List.mem_cons, State.mk.injEq, and_true]
    constructor <;> funext other <;> by_cases hother : other = id <;> simp [hother]

variable {id : Id}

omit [DecidableEq ServerId] in
theorem held_dropContainers {ids : List Id} :
    Held (s.dropContainers ids) id ↔ id ∉ ids ∧ Held s id := by
  rw [dropContainers_eq]
  unfold Held
  by_cases hid : id ∈ ids <;> simp [hid]

/-- What is left behind a drop belongs to other servers. -/
theorem Inv.dropServerReadings (h : Inv s) (serverId : ServerId) :
    Inv (s.dropServerReadings serverId) := by
  refine ⟨?_, ?_⟩
  · intro id hid
    obtain ⟨hnot, hheld⟩ : id ∉ (Assoc.get s.remoteByServer serverId).getD [] ∧ Held s id :=
      held_dropContainers.mp hid
    obtain ⟨other, list, hlist, hmem⟩ := h.held id hheld
    have hother : other ≠ serverId := by
      rintro rfl
      rw [h.lists hlist] at hnot
      exact hnot hmem
    exact ⟨other, list, (update_of_ne hother ..).trans hlist, hmem⟩
  · intro other list hlist
    rcases Runs.update_eq_some hlist with ⟨-, habsurd⟩ | ⟨hother, hlist⟩
    · cases habsurd
    · show Assoc.get (Assoc.set s.remoteByServer serverId []) other = some list
      rw [Assoc.get_set, if_neg (Ne.symm hother)]
      exact h.lists hlist

theorem Inv.forgetServer (h : Inv s) (serverId : ServerId) : Inv (s.forgetServer serverId) := by
  have hdrop := h.dropServerReadings serverId
  refine ⟨hdrop.held, ?_⟩
  intro other list hlist
  have hother : other ≠ serverId := by
    rintro rfl
    have hnone : (s.dropServerReadings other).current other = none := update_self ..
    rw [State.forgetServer] at hlist
    simp only at hlist
    rw [hnone] at hlist
    cases hlist
  show Assoc.get (Assoc.erase (s.dropServerReadings serverId).remoteByServer serverId) other = some list
  rw [Assoc.get_erase, if_neg (Ne.symm hother)]
  exact hdrop.lists hlist

/-! ## What is written -/

omit [DecidableEq ServerId] in
theorem setInfo_isSome {serverId : ServerId} (containers : List (Container Id)) :
    ∀ info : Id → Option (ServerId × Labels), (setInfo serverId info containers id).isSome ↔
      id ∈ containers.map (·.Id) ∨ (info id).isSome := by
  induction containers with
  | nil => simp [setInfo]
  | cons c containers ih =>
    intro info
    show (setInfo serverId (update info c.Id _) containers id).isSome ↔ _
    rw [ih]
    by_cases hid : id = c.Id
    · simp [hid]
    · simp [hid]

theorem held_apply {r : Round ServerId Id Stats} {containers : List (Container Id)} :
    Held (s.apply r containers) id ↔ id ∈ containers.map (·.Id) ∨
      (id ∉ (Assoc.get s.remoteByServer r.serverId).getD [] ∧ Held s id) := by
  have hdropped : ∀ known : List Id, Held (s.dropContainers
      (known.filter fun id => id ∉ containers.map (·.Id))) id ∨ id ∈ containers.map (·.Id) ↔
      id ∈ containers.map (·.Id) ∨ (id ∉ known ∧ Held s id) := by
    intro known
    rw [held_dropContainers, List.mem_filter]
    by_cases hmem : id ∈ containers.map (·.Id)
    · simp only [hmem, or_true, true_or]
    · simp only [hmem, not_false_eq_true, decide_true, and_true, or_false, false_or]
  rw [← hdropped]
  unfold Held State.apply
  simp only [setInfo_isSome]
  constructor
  · rintro (hhistory | hmem | hinfo)
    · exact Or.inl (Or.inl hhistory)
    · exact Or.inr hmem
    · exact Or.inl (Or.inr hinfo)
  · rintro ((hhistory | hinfo) | hmem)
    · exact Or.inl hhistory
    · exact Or.inr (Or.inr hinfo)
    · exact Or.inr (Or.inl hmem)

theorem current_apply (r : Round ServerId Id Stats) (containers : List (Container Id)) :
    (s.apply r containers).current =
      if r.begun = s.drops r.serverId ∨ (s.current r.serverId).isSome then
        update s.current r.serverId (some (containers.map (·.Id)))
      else s.current := by
  simp only [State.apply, dropContainers_eq]

/-- A list is applied that is not too late. -/
theorem Inv.apply (h : Inv s) (r : Round ServerId Id Stats) (containers : List (Container Id))
    (htimely : r.begun ≠ s.drops r.serverId → s.current r.serverId = none →
      ∀ c ∈ containers, Listed s c.Id) : Inv (s.apply r containers) := by
  refine ⟨?_, ?_⟩
  · intro id hid
    rw [held_apply] at hid
    by_cases hcurrent : r.begun = s.drops r.serverId ∨ (s.current r.serverId).isSome
    · have hnew := current_apply (s := s) r containers
      rw [if_pos hcurrent] at hnew
      rcases hid with hmem | ⟨hnot, hheld⟩
      · exact ⟨r.serverId, _, by rw [hnew, update_self], hmem⟩
      · obtain ⟨other, list, hlist, hmem⟩ := h.held id hheld
        have hother : other ≠ r.serverId := by
          rintro rfl
          rw [h.lists hlist] at hnot
          exact hnot hmem
        exact ⟨other, list, by rw [hnew, update_of_ne hother, hlist], hmem⟩
    · have hnew := current_apply (s := s) r containers
      rw [if_neg hcurrent] at hnew
      rw [not_or, Option.not_isSome_iff_eq_none] at hcurrent
      unfold Listed
      rw [hnew]
      rcases hid with hmem | ⟨-, hheld⟩
      · obtain ⟨c, hc, rfl⟩ := List.mem_map.mp hmem
        exact htimely hcurrent.1 hcurrent.2 c hc
      · exact h.held id hheld
  · intro other list hlist
    rw [current_apply] at hlist
    show Assoc.get (Assoc.set (s.dropContainers _).remoteByServer r.serverId _) other = some list
    rw [dropContainers_eq]
    by_cases hother : r.serverId = other
    · subst hother
      rw [Assoc.get_set, if_pos rfl]
      split at hlist
      · rwa [update_self] at hlist
      · rename_i hcurrent
        rw [hlist] at hcurrent
        exact absurd (Or.inr rfl) hcurrent
    · rw [Assoc.get_set, if_neg hother]
      split at hlist
      · rw [update_of_ne (Ne.symm hother)] at hlist
        exact h.lists hlist
      · exact h.lists hlist

omit [DecidableEq ServerId] in
theorem held_record {other : Id} {metrics : Metrics} :
    Held (s.record id metrics) other ↔ other = id ∨ Held s other := by
  unfold Held State.record
  by_cases hid : other = id
  · simp [hid]
  · simp [hid]

theorem Inv.record (h : Inv s) (hid : Listed s id) (metrics : Metrics) :
    Inv (s.record id metrics) := by
  refine ⟨?_, h.lists⟩
  intro other hother
  rcases held_record.mp hother with rfl | hheld
  · exact hid
  · exact h.held other hheld

variable {s' : State ServerId Id Stats Metrics}

omit [DecidableEq Id] in
/-- Rounds and calls that wait do not matter. -/
theorem Inv.congr (h : Inv s) (hhistory : s'.remoteHistory = s.remoteHistory)
    (hinfo : s'.remoteInfo = s.remoteInfo) (hbyServer : s'.remoteByServer = s.remoteByServer)
    (hcurrent : s'.current = s.current) : Inv s' := by
  refine ⟨?_, ?_⟩
  · intro id hid
    unfold Held at hid
    unfold Listed
    rw [hhistory, hinfo] at hid
    rw [hcurrent]
    exact h.held id hid
  · rw [hcurrent, hbyServer]
    exact h.lists

omit [DecidableEq Id] in
theorem Inv.setRound (h : Inv s) (round : Nat) (r : Round ServerId Id Stats) :
    Inv (s.setRound round r) := h.congr rfl rfl rfl rfl

omit [DecidableEq Id] in
theorem Inv.start (h : Inv s) (serverId : ServerId) : Inv (s.start serverId) := by
  unfold State.start
  split
  · exact h
  · exact h.congr rfl rfl rfl rfl

omit [DecidableEq Id] in
theorem Inv.foldl {step : State ServerId Id Stats Metrics → ServerId → State ServerId Id Stats Metrics}
    (hstep : ∀ s id, Inv s → Inv (step s id)) (ids : List ServerId) :
    ∀ {s : State ServerId Id Stats Metrics}, Inv s → Inv (ids.foldl step s) := by
  induction ids with
  | nil => exact fun h => h
  | cons id ids ih => exact fun h => ih (hstep _ id h)

theorem Inv.sampleServers (h : Inv s) (ids : List ServerId) : Inv (s.sampleServers ids) :=
  Inv.foldl (fun _ id h => h.start id) ids (Inv.foldl (fun _ id h => h.forgetServer id) _ h)

variable {computeMetrics : Stats → Stats → Metrics} {a : Action ServerId Id Stats}

theorem inv_step (h : Inv s) (htimely : Timely s a)
    (hstep : step computeMetrics s a = some s') : Inv s' := by
  cases a with
  | sampleRemote =>
    cases hstep
    exact h.congr rfl rfl rfl rfl
  | servers ids =>
    simp only [step] at hstep
    split at hstep
    · cases hstep
    · have hwaiting : Inv { s with waiting := s.waiting - 1 } := h.congr rfl rfl rfl rfl
      cases ids with
      | none =>
        cases hstep
        exact hwaiting
      | some ids =>
        cases hstep
        exact hwaiting.sampleServers ids
  | listed round containers =>
    simp only [step] at hstep
    split at hstep
    · rename_i serverId watch begun hround
      cases containers with
      | none =>
        cases hstep
        exact h.setRound round _
      | some containers =>
        cases hstep
        exact (h.apply _ containers (htimely serverId watch begun hround)).setRound round _
    · cases hstep
  | stats round worker answer =>
    simp only [step] at hstep
    split at hstep
    · rename_i serverId queue workers watch begun hround
      split at hstep
      · cases hstep
      · cases hstep
        exact h.setRound round _
      · cases hstep
        exact h.setRound round _
      · rename_i id first second hworker
        cases hstep
        exact (h.record (htimely serverId queue workers watch begun id first hround hworker) _).setRound
          round _
    · cases hstep
  | rejected round =>
    simp only [step] at hstep
    split at hstep
    · cases hstep
    · cases hstep
      exact (h.dropServerReadings _).setRound round _
    · cases hstep
  | settled round =>
    simp only [step] at hstep
    split at hstep
    · cases hstep
      exact h.congr rfl rfl rfl rfl
    · cases hstep
      exact h.congr rfl rfl rfl rfl
    · cases hstep

/-! ## Too late -/

/-- What comes in too late is held and not listed. -/
theorem not_current_of_late (hlate : ¬ Timely s a) :
    ∃ s', step computeMetrics s a = some s' ∧ ¬ Current s' := by
  cases a with
  | listed round containers =>
    cases containers with
    | none => exact absurd trivial hlate
    | some containers =>
      simp only [Timely, not_forall] at hlate
      obtain ⟨serverId, watch, begun, hround, hbegun, hnone, c, hc, hnot⟩ := hlate
      refine ⟨_, by simp only [step, hround]; rfl, ?_⟩
      intro hcurrent
      have hheld : Held (s.apply ⟨serverId, .listing, watch, begun⟩ containers) c.Id :=
        held_apply.mpr (Or.inl (List.mem_map_of_mem hc))
      obtain ⟨other, list, hlist, hmem⟩ := hcurrent c.Id hheld
      have hlist : (s.apply ⟨serverId, .listing, watch, begun⟩ containers).current other = some list :=
        hlist
      rw [current_apply, if_neg (by simp [hbegun, hnone])] at hlist
      exact hnot ⟨other, list, hlist, hmem⟩
  | stats round worker answer =>
    cases answer with
    | none => exact absurd trivial hlate
    | some second =>
      simp only [Timely, not_forall] at hlate
      obtain ⟨serverId, queue, workers, watch, begun, id, first, hround, hworker, hnot⟩ := hlate
      refine ⟨_, by simp only [step, hround, hworker]; rfl, ?_⟩
      intro hcurrent
      exact hnot (hcurrent id (held_record.mpr (Or.inl rfl)))
  | sampleRemote => exact absurd trivial hlate
  | servers ids => exact absurd trivial hlate
  | rejected round => exact absurd trivial hlate
  | settled round => exact absurd trivial hlate

omit [DecidableEq Id] in
theorem inv_initial : Inv (initial : State ServerId Id Stats Metrics) := by
  refine ⟨?_, fun h => nomatch h⟩
  rintro id (habsurd | habsurd) <;> cases habsurd

/-- **What is held is current**: in every run of rounds that overlap, time out or fail, of
servers that come and go and of containers that are removed, the readings and labels that are
held belong to the lists last applied for servers that were not dropped since, exactly when no
reading and no list comes in too late. -/
theorem current_iff_timely (computeMetrics : Stats → Stats → Metrics)
    (as : List (Action ServerId Id Stats)) :
    Runs.Throughout (step computeMetrics) Current initial as ↔
      Runs.Meets (step computeMetrics) Timely initial as :=
  Runs.throughout_iff_meets (fun _ _ _ => inv_step) (fun _ h => h.held)
    (fun _ _ _ => not_current_of_late) as _ inv_initial

/-! ## A server that is deleted during its round -/

/-- The first statistics of the container have come when the server is deleted, the second come
behind that, and the monitoring goes on. -/
def deletedMeanwhile : List (Action Unit Unit Unit) :=
  [.sampleRemote, .servers (some [()]), .listed 0 (some [⟨(), none⟩]), .stats 0 0 (some ()),
    .sampleRemote, .servers (some []), .stats 0 0 (some ()), .settled 0, .sampleRemote, .servers (some [])]

/-- The round of a server times out before its list comes in. -/
def listedLate : List (Action Unit Unit Unit) :=
  [.sampleRemote, .servers (some [()]), .rejected 0, .settled 0, .listed 0 (some [⟨(), none⟩])]

/-- **Readings of a deleted server stay**, and labels come back behind a round that timed out. -/
theorem readings_reappear :
    (¬ ∀ as, Runs.Throughout (step fun _ _ : Unit => ()) Current
        (initial : State Unit Unit Unit Unit) as) ∧
      (∃ s, Runs.exec (step fun _ _ : Unit => ()) (initial : State Unit Unit Unit Unit)
        deletedMeanwhile = some s ∧ s.remoteHistory () = some [()] ∧ s.remoteByServer = []) ∧
      ∃ s, Runs.exec (step fun _ _ : Unit => ()) (initial : State Unit Unit Unit Unit)
        listedLate = some s ∧ s.remoteInfo () = some ((), []) ∧ s.current () = none := by
  refine ⟨?_, ⟨_, rfl, rfl, rfl⟩, _, rfl, rfl, rfl⟩
  intro h
  have hcurrent := h deletedMeanwhile deletedMeanwhile _ (List.prefix_refl _) rfl
  obtain ⟨_, _, hlist, -⟩ := hcurrent () (Or.inl rfl)
  cases hlist

end Aoox.RemoteSampling
