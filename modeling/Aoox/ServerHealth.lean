import Aoox.JsString

/-! # The health of a server

Every minute a server is asked for its containers.  What comes of it is kept in two places: the row
of the server, which stays, and two maps of the process, which are lost when the API restarts.  A
server is announced as down once, with a reminder at most every hour, and as reachable again once.

The maps may be lost between any two checks.  Nothing is announced twice then, since what is down
stands in the row; the hour begins anew (`health_announced`).
-/
namespace Aoox.ServerHealth
open JsString List

/-! ## The check -/

def DOWN_AFTER_FAILURES : Nat := 2
def DOWN_REMINDER_MS : Nat := 60 * 60000

inductive ServerHealthStatus where
  | unknown | up | down
  deriving DecidableEq

/-- The health columns of a row. -/
structure Row where
  healthStatus : ServerHealthStatus
  (healthCheckedAt healthChangedAt : Option Nat)
  healthError : Option JsString
  monitoredContainers : Option Nat

/-- What the process keeps of a server in `failures` and `lastDownNotice`. -/
structure Memory where
  (failures lastDownNotice : Option Nat)

def Memory.empty : Memory := ⟨none, none⟩

structure State where
  row : Row
  memory : Memory

/-- The columns of the row that the notices show. -/
structure Server where
  (name username host : JsString)
  port : Nat

inductive Kind where
  | down | reminder | recovered
  deriving DecidableEq

structure Notice where
  kind : Kind
  /-- When the check was. -/
  now : Nat
  (title level : JsString)
  fields : List (JsString × JsString)

def formatDuration (ms : Int) : JsString :=
  let minutes := ((ms + 30000) / 60000).toNat
  if minutes < 1 then js "<1m"
  else if minutes < 60 then js (toString minutes) ++ js "m"
  else js (toString (minutes / 60)) ++ js "h " ++ js (toString (minutes % 60)) ++ js "m"

section
variable (server : Server)

def place : JsString :=
  server.username ++ js "@" ++ server.host ++ js ":" ++ js (toString server.port)

def announceDown (error : JsString) (reminder : Bool) (now : Nat) : Notice where
  kind := if reminder then .reminder else .down
  now := now
  title := (if reminder then js "Server still unreachable" else js "Server unreachable") ++ js ": " ++
    server.name
  level := js "failure"
  fields := [(js "Server", place server), (js "Error", error.take 200),
    (js "Checked", toISOString now)]

def announceRecovered (changedAt : Option Nat) (now : Nat) : Notice where
  kind := .recovered
  now := now
  title := js "Server reachable again: " ++ server.name
  level := js "success"
  fields := [(js "Server", place server),
    (js "Down for", (changedAt.map fun t => formatDuration ((now : Int) - t)).getD (js "unknown"))]

/-- The failed probes in a row, this one counted. -/
def failed (m : Memory) : Except JsString Nat → Nat
  | .ok _ => 0
  | .error _ => m.failures.getD 0 + 1

/-- The status a probe leads to. -/
def nextStatus (s : State) : Except JsString Nat → ServerHealthStatus
  | .ok _ => .up
  | .error message =>
    if DOWN_AFTER_FAILURES ≤ failed s.memory (.error message) then .down else s.row.healthStatus

/-- What is written into the row. -/
def updated (s : State) (probe : Except JsString Nat) (now : Nat) : Row where
  healthStatus := nextStatus s probe
  healthCheckedAt := some now
  healthChangedAt :=
    if nextStatus s probe ≠ s.row.healthStatus ∨ s.row.healthChangedAt = none then some now
    else s.row.healthChangedAt
  healthError :=
    match probe with
    | .ok _ => none
    | .error message => if message = [] then none else some (message.take 500)
  monitoredContainers :=
    match probe with
    | .ok containers => some containers
    | .error _ => s.row.monitoredContainers

def errorOf : Except JsString Nat → JsString
  | .ok _ => []
  | .error message => message

/-- `check`.  The row may fail to be saved. -/
def check (s : State) (now : Nat) (probe : Except JsString Nat) (saved : Bool) :
    State × List Notice :=
  let prev := s.row.healthStatus
  let next := nextStatus s probe
  let memory :=
    { s.memory with
      failures := match probe with
        | .ok _ => none
        | .error message => some (failed s.memory (.error message)) }
  if saved = false then (⟨s.row, memory⟩, [])
  else
    let row := updated s probe now
    if next = .down then
      if prev ≠ .down then
        (⟨row, { memory with lastDownNotice := some now }⟩,
          [announceDown server (errorOf probe) false now])
      else
        match s.memory.lastDownNotice with
        | none => (⟨row, { memory with lastDownNotice := some now }⟩, [])
        | some last =>
          if last + DOWN_REMINDER_MS ≤ now then
            (⟨row, { memory with lastDownNotice := some now }⟩,
              [announceDown server (errorOf probe) true now])
          else (⟨row, memory⟩, [])
    else if next = .up ∧ prev = .down then
      (⟨row, { memory with lastDownNotice := none }⟩,
        [announceRecovered server s.row.healthChangedAt now])
    else (⟨row, memory⟩, [])

/-! ## Runs -/

inductive Event where
  | check (now : Nat) (probe : Except JsString Nat) (saved : Bool)
  /-- The API starts anew. -/
  | restart

def Event.time : Event → Option Nat
  | .check now _ _ => some now
  | .restart => none

def Event.Fails (e : Event) : Prop := ∃ now message saved, e = .check now (.error message) saved

def step (s : State) : Event → State × List Notice
  | .check now probe saved => check server s now probe saved
  | .restart => (⟨s.row, .empty⟩, [])

def after (s : State) (es : List Event) : State := es.foldl (fun s e => (step server s e).1) s

def notices (s : State) : List Event → List Notice
  | [] => []
  | e :: es => (step server s e).2 ++ notices (step server s e).1 es

/-- What is asked of a run. -/
structure Honest (s : State) (es : List Event) : Prop where
  /-- Two failed probes in a row turn the row down, and nothing else. -/
  turnsDown : ∀ before e, before ++ [e] <+: es →
    (after server s before).row.healthStatus ≠ .down →
      (after server s (before ++ [e])).row.healthStatus = .down →
        e.Fails ∧ ∃ front d, before = front ++ [d] ∧ d.Fails
  /-- First-down and recovered announcements alternate. -/
  alternate : ∀ i k, (((notices server s es).map (·.kind)).filter (· ≠ .reminder))[i]? = some k →
    k = if i % 2 = 0 then .down else .recovered
  /-- Reminders are for a server that is down. -/
  reminded : ∀ before e, before ++ [e] <+: es → ∀ n ∈ (step server (after server s before) e).2,
    n.kind = .reminder → (after server s before).row.healthStatus = .down ∧
      (after server s (before ++ [e])).row.healthStatus = .down
  /-- The hour between a notice and a reminder. -/
  spaced : (notices server s es).Pairwise fun n n' => n'.kind = .reminder → n.kind ≠ .recovered →
    n.now + DOWN_REMINDER_MS ≤ n'.now

/-! ## What a step can do -/

/-- **A step** is quiet, turns the row down, reminds, or turns the row up. -/
inductive Does (s : State) (e : Event) : State → List Notice → Prop
  | quiet {s'} (status : s'.row.healthStatus = .down ↔ s.row.healthStatus = .down)
      (last : ∀ t, s'.memory.lastDownNotice = some t →
        s.memory.lastDownNotice = some t ∨ e.time = some t) : Does s e s' []
  | down {s' now} (fails : e.Fails) (time : e.time = some now)
      (failures : s.memory.failures ≠ none) (before : s.row.healthStatus ≠ .down)
      (after : s'.row.healthStatus = .down) (last : s'.memory.lastDownNotice = some now)
      (error : JsString) : Does s e s' [announceDown server error false now]
  | remind {s' now t} (time : e.time = some now) (before : s.row.healthStatus = .down)
      (after : s'.row.healthStatus = .down) (previous : s.memory.lastDownNotice = some t)
      (hour : t + DOWN_REMINDER_MS ≤ now) (last : s'.memory.lastDownNotice = some now)
      (error : JsString) : Does s e s' [announceDown server error true now]
  | recover {s' now} (time : e.time = some now) (before : s.row.healthStatus = .down)
      (after : s'.row.healthStatus = .up) (last : s'.memory.lastDownNotice = none)
      (changedAt : Option Nat) : Does s e s' [announceRecovered server changedAt now]

variable {server : Server}

theorem step_does (s : State) (e : Event) :
    Does server s e (step server s e).1 (step server s e).2 := by
  cases e with
  | restart => exact .quiet Iff.rfl fun t h => by cases h
  | check now probe saved =>
    unfold step check
    dsimp only
    split
    · exact .quiet Iff.rfl fun t h => .inl h
    · rename_i hsaved
      split
      · rename_i hnext
        split
        · rename_i hprev
          cases probe with
          | ok n => cases hnext
          | error message =>
            refine .down ⟨_, _, _, rfl⟩ rfl (fun hnone => hprev ?_) hprev hnext rfl _
            have hfailed : failed s.memory (.error message) = 1 := by rw [failed, hnone]; rfl
            rw [nextStatus, hfailed, if_neg (by decide)] at hnext
            exact hnext
        · rename_i hprev
          rw [not_not] at hprev
          split
          · exact .quiet (iff_of_true hnext hprev) fun t h => .inr h
          · rename_i last hlast
            split
            · rename_i hhour
              exact .remind rfl hprev hnext hlast hhour rfl _
            · exact .quiet (iff_of_true hnext hprev) fun t h => .inl h
      · rename_i hnext
        split
        · rename_i hup
          exact .recover rfl hup.2 hup.1 rfl _
        · rename_i hup
          refine .quiet (iff_of_false hnext fun hprev => ?_) fun t h => .inl h
          cases probe with
          | ok n => exact hup ⟨rfl, hprev⟩
          | error message =>
            rw [nextStatus, hprev, ite_self] at hnext
            exact hnext rfl

/-- **The count of failures** is there only right behind a failed check. -/
theorem fails_of_failures {s : State} {e : Event}
    (h : (step server s e).1.memory.failures ≠ none) : e.Fails := by
  cases e with
  | restart => exact absurd rfl h
  | check now probe saved =>
    cases probe with
    | error message => exact ⟨now, message, saved, rfl⟩
    | ok n =>
      refine absurd ?_ h
      unfold step check
      dsimp only
      repeat' split
      all_goals rfl

theorem after_concat (s : State) (es : List Event) (e : Event) :
    after server s (es ++ [e]) = (step server (after server s es) e).1 := by
  rw [after, foldl_append]
  rfl

theorem notices_concat (s : State) (es : List Event) (e : Event) :
    notices server s (es ++ [e]) = notices server s es ++ (step server (after server s es) e).2 := by
  induction es generalizing s with
  | nil => simp [notices, after]
  | cons d es ih => rw [cons_append, notices, ih, notices, append_assoc]; rfl

/-! ## What holds in a run -/

/-- The first-down and recovered announcements. -/
def turns (ns : List Notice) : List Kind := (ns.map (·.kind)).filter (· ≠ .reminder)

/-- The row, the maps and the notices after some events. -/
structure Inv (es : List Event) (s : State) (ns : List Notice) : Prop where
  failures : s.memory.failures ≠ none → ∃ front d, es = front ++ [d] ∧ d.Fails
  alternate : ∀ i k, (turns ns)[i]? = some k → k = if i % 2 = 0 then .down else .recovered
  status : s.row.healthStatus = .down ↔ (turns ns).length % 2 = 1
  last : ∀ t, s.memory.lastDownNotice = some t → ∀ n ∈ ns, n.kind ≠ .recovered → n.now ≤ t
  times : ∀ n ∈ ns, n.now ∈ es.filterMap Event.time
  spaced : ns.Pairwise fun n n' => n'.kind = .reminder → n.kind ≠ .recovered →
    n.now + DOWN_REMINDER_MS ≤ n'.now

theorem inv_start {row : Row} (h : row.healthStatus ≠ .down) : Inv [] ⟨row, .empty⟩ [] where
  failures hne := absurd rfl hne
  alternate i k hk := by cases hk
  status := iff_of_false h (by decide)
  last t ht := by cases ht
  times n hn := by cases hn
  spaced := List.Pairwise.nil

theorem turns_append (ns ns' : List Notice) : turns (ns ++ ns') = turns ns ++ turns ns' := by
  rw [turns, map_append, filter_append]
  rfl

/-- The turn that comes next. -/
theorem alternate_concat {ks : List Kind} {kind : Kind}
    (h : ∀ i k, ks[i]? = some k → k = if i % 2 = 0 then .down else .recovered)
    (hkind : kind = if ks.length % 2 = 0 then .down else .recovered) :
    ∀ i k, (ks ++ [kind])[i]? = some k → k = if i % 2 = 0 then .down else .recovered := by
  intro i k hk
  rw [List.getElem?_append] at hk
  split at hk
  · exact h i k hk
  · obtain ⟨hi, rfl⟩ : i - ks.length = 0 ∧ kind = k := by
      cases hj : i - ks.length with
      | zero => simpa [hj] using hk
      | succ j => simp [hj] at hk
    have heq : i = ks.length := by omega
    rw [heq]
    exact hkind

theorem inv_step {es : List Event} {e : Event} {s : State} {ns : List Notice} (h : Inv es s ns)
    (htimes : ((es ++ [e]).filterMap Event.time).Pairwise (· ≤ ·)) :
    Inv (es ++ [e]) (step server s e).1 (ns ++ (step server s e).2) := by
  have hfailures : (step server s e).1.memory.failures ≠ none →
      ∃ front d, es ++ [e] = front ++ [d] ∧ d.Fails :=
    fun hne => ⟨es, e, rfl, fails_of_failures hne⟩
  -- no check is before one of the earlier ones
  have hlate : ∀ now, e.time = some now → ∀ n ∈ ns, n.now ≤ now := by
    intro now hnow n hn
    rw [filterMap_append, pairwise_append] at htimes
    exact htimes.2.2 _ (h.times n hn) now (by simp [hnow])
  have hearlier : ∀ n ∈ ns, n.now ∈ (es ++ [e]).filterMap Event.time := fun n hn => by
    rw [filterMap_append]
    exact mem_append_left _ (h.times n hn)
  have htimed : ∀ m : Notice, e.time = some m.now →
      ∀ n ∈ ns ++ [m], n.now ∈ (es ++ [e]).filterMap Event.time := by
    intro m hm n hn
    rcases mem_append.mp hn with hn | hn
    · exact hearlier n hn
    · rw [mem_singleton.mp hn]
      simp [filterMap_append, hm]
  have hupTo : ∀ m : Notice, e.time = some m.now → ∀ n ∈ ns ++ [m], n.now ≤ m.now := by
    intro m hm n hn
    rcases mem_append.mp hn with hn | hn
    · exact hlate _ hm n hn
    · rw [mem_singleton.mp hn]
  -- a notice that is no reminder has no distance to keep
  have hspaced : ∀ m : Notice, m.kind ≠ .reminder → (ns ++ [m]).Pairwise fun n n' =>
      n'.kind = .reminder → n.kind ≠ .recovered → n.now + DOWN_REMINDER_MS ≤ n'.now := by
    intro m hm
    refine pairwise_append.mpr ⟨h.spaced, pairwise_singleton _ _, ?_⟩
    intro n _ n' hn' hkind
    rw [mem_singleton.mp hn'] at hkind
    exact absurd hkind hm
  have hdoes := @step_does server s e
  generalize (step server s e).1 = s' at *
  generalize (step server s e).2 = ns' at *
  cases hdoes with
  | quiet hstatus hlast =>
    rw [append_nil]
    refine ⟨hfailures, h.alternate, hstatus.trans h.status, fun t ht n hn hkind => ?_, hearlier,
      h.spaced⟩
    rcases hlast t ht with hsame | htime
    · exact h.last t hsame n hn hkind
    · exact hlate t htime n hn
  | @down now _ htime _ hbefore hafter hlast error =>
    have hlen : (turns ns).length % 2 = 0 := by
      have hnot : ¬ (turns ns).length % 2 = 1 := fun hodd => hbefore (h.status.mpr hodd)
      omega
    have hturn : turns [announceDown server error false now] = [.down] := rfl
    refine ⟨hfailures, ?_, ?_, ?_, ?_, ?_⟩
    · rw [turns_append, hturn]
      exact alternate_concat h.alternate (if_pos hlen).symm
    · rw [turns_append, hturn, length_append, length_singleton]
      exact iff_of_true hafter (by omega)
    · intro t ht n hn _
      obtain rfl := Option.some.inj (hlast.symm.trans ht)
      exact hupTo _ htime n hn
    · exact htimed _ htime
    · exact hspaced _ fun hkind => by cases hkind
  | @remind now t htime hbefore hafter hprevious hhour hlast error =>
    have hturn : turns [announceDown server error true now] = [] := rfl
    refine ⟨hfailures, ?_, ?_, ?_, ?_, ?_⟩
    · rw [turns_append, hturn, append_nil]
      exact h.alternate
    · rw [turns_append, hturn, append_nil]
      exact iff_of_true hafter (h.status.mp hbefore)
    · intro t ht n hn _
      obtain rfl := Option.some.inj (hlast.symm.trans ht)
      exact hupTo _ htime n hn
    · exact htimed _ htime
    · refine pairwise_append.mpr ⟨h.spaced, pairwise_singleton _ _, ?_⟩
      intro n hn n' hn' _ hkind
      rw [mem_singleton.mp hn']
      exact (Nat.add_le_add_right (h.last t hprevious n hn hkind) _).trans hhour
  | @recover now htime hbefore hafter hlast changedAt =>
    have hlen : (turns ns).length % 2 = 1 := h.status.mp hbefore
    have hturn : turns [announceRecovered server changedAt now] = [.recovered] := rfl
    refine ⟨hfailures, ?_, ?_, ?_, ?_, ?_⟩
    · rw [turns_append, hturn]
      exact alternate_concat h.alternate (if_neg (by omega)).symm
    · rw [turns_append, hturn, length_append, length_singleton]
      exact iff_of_false (by rw [hafter]; decide) (by omega)
    · intro t ht
      rw [hlast] at ht
      cases ht
    · exact htimed _ htime
    · exact hspaced _ fun hkind => by cases hkind

theorem inv_run {row : Row} (h : row.healthStatus ≠ .down) {es : List Event}
    (htimes : (es.filterMap Event.time).Pairwise (· ≤ ·)) :
    Inv es (after server ⟨row, .empty⟩ es) (notices server ⟨row, .empty⟩ es) := by
  induction es using reverseRecOn with
  | nil => exact inv_start h
  | append_singleton es e ih =>
    have hearlier : (es.filterMap Event.time).Pairwise (· ≤ ·) := by
      rw [filterMap_append] at htimes
      exact (pairwise_append.mp htimes).1
    rw [after_concat, notices_concat]
    exact inv_step (ih hearlier) htimes

end

/-- **What is announced of a server**, whenever the API restarts. -/
theorem health_announced (server : Server) (row : Row) (h : row.healthStatus ≠ .down)
    (es : List Event) (htimes : (es.filterMap Event.time).Pairwise (· ≤ ·)) :
    Honest server ⟨row, .empty⟩ es := by
  have hbefore : ∀ before e, before ++ [e] <+: es →
      Inv before (after server ⟨row, .empty⟩ before) (notices server ⟨row, .empty⟩ before) := by
    intro before e hpre
    refine inv_run h (htimes.sublist (List.Sublist.filterMap _ ?_))
    exact ((List.prefix_append before [e]).trans hpre).sublist
  refine ⟨fun before e hpre hup hdown => ?_, (inv_run h htimes).alternate,
    fun before e hpre n hn hkind => ?_, (inv_run h htimes).spaced⟩
  · rw [after_concat] at hdown
    have hdoes := @step_does server (after server ⟨row, .empty⟩ before) e
    generalize (step server (after server ⟨row, .empty⟩ before) e).1 = s' at *
    generalize (step server (after server ⟨row, .empty⟩ before) e).2 = ns' at *
    cases hdoes with
    | quiet status => exact absurd (status.mp hdown) hup
    | down fails _ failures => exact ⟨fails, (hbefore before e hpre).failures failures⟩
    | remind _ before' => exact absurd before' hup
    | recover _ before' => exact absurd before' hup
  · rw [after_concat]
    have hdoes := @step_does server (after server ⟨row, .empty⟩ before) e
    generalize (step server (after server ⟨row, .empty⟩ before) e).1 = s' at *
    generalize (step server (after server ⟨row, .empty⟩ before) e).2 = ns' at *
    cases hdoes with
    | quiet => cases hn
    | down =>
      rw [List.mem_singleton.mp hn] at hkind
      cases hkind
    | remind _ before' after' => exact ⟨before', after'⟩
    | recover =>
      rw [List.mem_singleton.mp hn] at hkind
      cases hkind

def web : Server := ⟨js "web", js "root", js "203.0.113.7", 22⟩

/-- A server that goes down, is still down behind a restart, and comes back. -/
theorem health_announced_web :
    Honest web ⟨⟨.up, none, none, none, none⟩, .empty⟩
      [.check 60000 (.error (js "timed out")) true, .check 120000 (.error (js "timed out")) true,
        .restart, .check 180000 (.error (js "timed out")) true,
        .check 4000000 (.error (js "timed out")) true, .check 4060000 (.ok 3) true] :=
  health_announced web ⟨.up, none, none, none, none⟩ (by decide) _ (by decide)

end Aoox.ServerHealth
