import Aoox.Assoc
import Aoox.Runs

/-! # The event streams of the servers

The API keeps one stream of container events for each server.  `connect` takes a number, the
generation of the server's state, waits for the handle of the server and opens the stream;
its callbacks do nothing once the generation has moved on.  A stream that ends, or cannot be
opened, sets a timer that connects again, and a dropped session or a deleted server aborts
the stream and clears the timer.

A server has at most one stream and at most one timer, never both, and every event is
delivered at most once, as long as no current stream reports its end twice.  The invariant
(`Inv`) says what the state object of a server holds in each phase of its last call of
`connect`.
-/
open Option Bool Function
namespace Aoox.RemoteEvents

def MAX_BACKOFF_MS : Nat := 60000

structure StreamState where
  /-- Bumped on every (re)connect so callbacks of a replaced stream are ignored. -/
  generation : Nat
  /-- The call of `connect` whose stream it aborts. -/
  (abort retryTimer : Option Nat)
  (backoffMs connectedAt : Nat)

variable {ServerId : Type}

/-- What the callbacks of a call of `connect` hold on to. -/
structure Ticket (ServerId : Type) where
  serverId : ServerId
  /-- The number of the state object. -/
  (state generation : Nat)

inductive Stage where
  /-- It waits for the handle. -/
  | connecting
  /-- Its stream is open; so many events have come. -/
  | streaming (ended aborted : Bool) (events : Nat)

structure Call (ServerId : Type) where
  ticket : Ticket ServerId
  stage : Stage

structure Timer (ServerId : Type) where
  serverId : ServerId
  (state delay : Nat)

structure State (ServerId : Type) where
  stopped : Bool
  streams : List (ServerId × Nat)
  states : Nat → StreamState
  calls : Nat → Option (Call ServerId)
  /-- The pending ones. -/
  timers : Nat → Option (Timer ServerId)
  /-- The number of the next object. -/
  next : Nat
  /-- Runs of `reconcile` that wait for the list of servers. -/
  listing : Nat
  /-- The call and the number of every event that was delivered. -/
  delivered : List (Nat × Nat)

def fresh : StreamState where
  generation := 0
  abort := none
  retryTimer := none
  backoffMs := 1000
  connectedAt := 0

def initial : State ServerId where
  stopped := false
  streams := []
  states _ := fresh
  calls _ := none
  timers _ := none
  next := 0
  listing := 0
  delivered := []

/-- How a call of `connect` goes on behind `forServer`. -/
inductive Outcome where
  | rejected
  /-- `streamEvents` throws. -/
  | threw
  | opened

inductive Action (ServerId : Type) where
  | reconcile
  | listed (ids : Option (List ServerId))
  /-- The session of a server was dropped. -/
  | restart (serverId : ServerId)
  | shutdown
  | timer (timer : Nat)
  | connected (call : Nat) (outcome : Outcome) (now : Nat)
  | event (call : Nat)
  /-- A stream reports its end. -/
  | ended (call : Nat) (now : Nat)

def Stage.aborted : Stage → Stage
  | connecting => connecting
  | streaming ended _ events => streaming ended true events

def clearTimeout (timers : Nat → Option (Timer ServerId)) :
    Option Nat → Nat → Option (Timer ServerId)
  | none => timers
  | some timer => Function.update timers timer none

/-- `req.destroy` of the stream of a call. -/
def abort (calls : Nat → Option (Call ServerId)) : Option Nat → Nat → Option (Call ServerId)
  | none => calls
  | some call =>
    Function.update calls call ((calls call).map fun c => { c with stage := c.stage.aborted })

variable {x : Timer ServerId}

variable {timers : Nat → Option (Timer ServerId)} {timer : Option Nat}

theorem clearTimeout_eq_some {t : Nat}
    (h : clearTimeout timers timer t = some x) : timers t = some x ∧ timer ≠ some t := by
  cases timer with
  | none => exact ⟨h, by simp⟩
  | some u =>
    rcases Runs.update_eq_some h with ⟨-, habsurd⟩ | ⟨hne, h⟩
    · cases habsurd
    · exact ⟨h, fun heq => hne (some.inj heq).symm⟩

theorem clearTimeout_of_ne {t : Nat}
    (h : timer ≠ some t) : clearTimeout timers timer t = timers t := by
  cases timer with
  | none => rfl
  | some u => exact update_of_ne (fun heq => h (congrArg some heq.symm)) ..

variable {calls : Nat → Option (Call ServerId)}

theorem abort_eq_some {call : Option Nat} {c : Nat} {k : Call ServerId}
    (h : abort calls call c = some k) :
    ∃ stage, calls c = some ⟨k.ticket, stage⟩ ∧
      ((k.stage = stage ∧ call ≠ some c) ∨ k.stage = stage.aborted) := by
  cases call with
  | none => exact ⟨k.stage, h, Or.inl ⟨rfl, by simp⟩⟩
  | some d =>
    rcases Runs.update_eq_some h with ⟨rfl, h⟩ | ⟨hne, h⟩
    · obtain ⟨l, hl, rfl⟩ := map_eq_some_iff.mp h
      exact ⟨l.stage, hl, Or.inr rfl⟩
    · exact ⟨k.stage, h, Or.inl ⟨rfl, fun heq => hne (some.inj heq).symm⟩⟩

theorem abort_of_some {call : Option Nat} {c : Nat} {k : Call ServerId} (h : calls c = some k) :
    ∃ stage, abort calls call c = some ⟨k.ticket, stage⟩ ∧
      (stage = k.stage ∨ stage = k.stage.aborted) := by
  cases call with
  | none => exact ⟨k.stage, h, Or.inl rfl⟩
  | some d =>
    by_cases hd : c = d
    · subst hd
      exact ⟨k.stage.aborted, by simp [abort, h], Or.inr rfl⟩
    · exact ⟨k.stage, (update_of_ne hd ..).trans h, Or.inl rfl⟩

namespace State
variable [DecidableEq ServerId] (s : State ServerId)

/-- The ticket is that of the last connect of the state in the map. -/
def registered (t : Ticket ServerId) : Prop :=
  Assoc.get s.streams t.serverId = some t.state ∧ (s.states t.state).generation = t.generation

instance (t : Ticket ServerId) : Decidable (s.registered t) := by
  unfold registered
  infer_instance

def current (t : Ticket ServerId) : Bool := !s.stopped && decide (s.registered t)

def modify (o : Nat) (f : StreamState → StreamState) : State ServerId :=
  { s with states := Function.update s.states o (f (s.states o)) }

/-- `connect`, up to where it waits. -/
def connect (serverId : ServerId) (o : Nat) : State ServerId :=
  if s.stopped then s
  else
    let generation := (s.states o).generation + 1
    { s.modify o fun state => { state with generation := generation } with
      calls := Function.update s.calls s.next (some ⟨⟨serverId, o, generation⟩, .connecting⟩)
      next := s.next + 1 }

/-- `this.streams.set(serverId, state)`. -/
def add (serverId : ServerId) : State ServerId :=
  { s with
    streams := Assoc.set s.streams serverId s.next
    states := Function.update s.states s.next fresh
    next := s.next + 1 }

def start (serverId : ServerId) : State ServerId := (s.add serverId).connect serverId s.next

def stop (serverId : ServerId) : State ServerId :=
  match Assoc.get s.streams serverId with
  | none => s
  | some o =>
    let state := s.states o
    { s with
      states := Function.update s.states o { state with generation := state.generation + 1 }
      timers := clearTimeout s.timers state.retryTimer
      calls := abort s.calls state.abort
      streams := Assoc.erase s.streams serverId }

def restart (serverId : ServerId) : State ServerId :=
  match Assoc.get s.streams serverId with
  | none => s
  | some o =>
    if s.stopped then s
    else
      let state := s.states o
      connect
        { s with
          states := Function.update s.states o
            { state with
              generation := state.generation + 1
              retryTimer := none
              abort := none
              backoffMs := 1000 }
          timers := clearTimeout s.timers state.retryTimer
          calls := abort s.calls state.abort }
        serverId o

def retry (t : Ticket ServerId) (now : Nat) : State ServerId :=
  if s.current t then
    let state := s.states t.state
    -- A stream that stayed up for a while was healthy.
    let backoffMs :=
      if state.connectedAt ≠ 0 ∧ now - state.connectedAt > 30000 then 1000 else state.backoffMs
    { s.modify t.state fun state =>
        { state with
          abort := none
          retryTimer := some s.next
          backoffMs := min (backoffMs * 2) MAX_BACKOFF_MS } with
      timers := Function.update s.timers s.next (some ⟨t.serverId, t.state, backoffMs⟩)
      next := s.next + 1 }
  else s

def startAll (ids : List ServerId) : State ServerId :=
  ids.foldl (fun s id => if (Assoc.get s.streams id).isSome then s else s.start id) s

def stopAll (ids : List ServerId) : State ServerId := ids.foldl stop s

/-- The rest of `reconcile`. -/
def reconcileWith (ids : List ServerId) : State ServerId :=
  let s := s.startAll ids
  s.stopAll ((s.streams.map Prod.fst).filter fun id => id ∉ ids)

/-- A timer is no longer pending, and its state object forgets it. -/
def expire (timer : Nat) (t : Timer ServerId) : State ServerId :=
  modify { s with timers := Function.update s.timers timer none } t.state fun state =>
    { state with retryTimer := none }

def fire (timer : Nat) (t : Timer ServerId) : State ServerId :=
  (s.expire timer t).connect t.serverId t.state

/-- The rest of `connect`. -/
def connected (call : Nat) (t : Ticket ServerId) (now : Nat) : Outcome → State ServerId
  | .rejected => retry { s with calls := Function.update s.calls call none } t now
  | .threw =>
    if s.current t then
      retry
        (modify { s with calls := Function.update s.calls call none } t.state fun state =>
          { state with connectedAt := now })
        t now
    else { s with calls := Function.update s.calls call none }
  | .opened =>
    if s.current t then
      { s.modify t.state fun state => { state with connectedAt := now, abort := some call } with
        calls := Function.update s.calls call (some ⟨t, .streaming false false 0⟩) }
    else { s with calls := Function.update s.calls call none }

def event (call : Nat) (t : Ticket ServerId) (ended aborted : Bool) (events : Nat) :
    State ServerId :=
  let s' : State ServerId :=
    { s with
      calls := Function.update s.calls call (some ⟨t, .streaming ended aborted (events + 1)⟩) }
  if s.current t then
    -- a delivered event proves the stream is healthy
    { s'.modify t.state fun state => { state with backoffMs := 1000 } with
      delivered := (call, events) :: s.delivered }
  else s'

def markEnded (call : Nat) (t : Ticket ServerId) (aborted : Bool) (events : Nat) :
    State ServerId :=
  { s with calls := Function.update s.calls call (some ⟨t, .streaming true aborted events⟩) }

/-- `onEnd`. -/
def ended (call : Nat) (t : Ticket ServerId) (aborted : Bool) (events now : Nat) :
    State ServerId :=
  (s.markEnded call t aborted events).retry t now

end State

variable [DecidableEq ServerId]

def step (s : State ServerId) : Action ServerId → Option (State ServerId)
  | .reconcile => some (if s.stopped then s else { s with listing := s.listing + 1 })
  | .listed ids =>
    if s.listing = 0 then none
    else
      let s := { s with listing := s.listing - 1 }
      match ids with
      | none => some s
      | some ids => some (s.reconcileWith ids)
  | .restart serverId => some (s.restart serverId)
  | .shutdown => some (State.stopAll { s with stopped := true } (s.streams.map Prod.fst))
  | .timer timer => (s.timers timer).map fun t => s.fire timer t
  | .connected call outcome now =>
    match s.calls call with
    | some ⟨t, .connecting⟩ => some (s.connected call t now outcome)
    | _ => none
  | .event call =>
    match s.calls call with
    | some ⟨t, .streaming ended aborted events⟩ => some (s.event call t ended aborted events)
    | _ => none
  | .ended call now =>
    match s.calls call with
    | some ⟨t, .streaming _ aborted events⟩ => some (s.ended call t aborted events now)
    | _ => none

/-! ## What is asked of it -/

/-- The stream of the call has neither ended nor was it aborted. -/
def Call.Live (c : Call ServerId) : Prop := ∃ events, c.stage = .streaming false false events

structure Once (s : State ServerId) : Prop where
  stream : ∀ {i j c d}, s.calls i = some c → s.calls j = some d → c.Live → d.Live →
    c.ticket.serverId = d.ticket.serverId → i = j
  timer : ∀ {t u x y}, s.timers t = some x → s.timers u = some y → x.serverId = y.serverId →
    t = u
  never_both : ∀ {i t c x}, s.calls i = some c → c.Live → s.timers t = some x →
    c.ticket.serverId ≠ x.serverId
  delivered : s.delivered.Nodup

/-- A stream that reports its end once more is not the current one of its server. -/
def Quiet (s : State ServerId) : Action ServerId → Prop
  | .ended call _ => ∀ t aborted events,
      s.calls call = some ⟨t, .streaming true aborted events⟩ → s.current t = false
  | _ => True

/-- What the state object of a registered call holds. -/
def Phase (call : Nat) (stage : Stage) (state : StreamState) : Prop :=
  match stage with
  | .connecting => state.retryTimer = none ∧ state.abort = none
  | .streaming false _ _ => state.retryTimer = none ∧ state.abort = some call
  | .streaming true _ _ => True

structure Inv (s : State ServerId) : Prop where
  mapped : ∀ {id o}, Assoc.get s.streams id = some o → o < s.next
  injective : ∀ {id id' o}, Assoc.get s.streams id = some o → Assoc.get s.streams id' = some o →
    id = id'
  below : ∀ {c k}, s.calls c = some k → c < s.next ∧ k.ticket.state < s.next ∧
    k.ticket.generation ≤ (s.states k.ticket.state).generation
  unique : ∀ {c d k l}, s.calls c = some k → s.calls d = some l →
    k.ticket.state = l.ticket.state → k.ticket.generation = l.ticket.generation → c = d
  live : ∀ {c k}, s.calls c = some k → k.Live → s.registered k.ticket
  phase : ∀ {c k}, s.calls c = some k → s.registered k.ticket →
    Phase c k.stage (s.states k.ticket.state)
  timers : ∀ {t x}, s.timers t = some x → t < s.next ∧
    Assoc.get s.streams x.serverId = some x.state ∧
    (s.states x.state).retryTimer = some t ∧ (s.states x.state).abort = none
  delivered : s.delivered.Nodup
  counted : ∀ {c n}, (c, n) ∈ s.delivered → ∃ t ended aborted events,
    s.calls c = some ⟨t, .streaming ended aborted events⟩ ∧ n < events

variable {s : State ServerId}

theorem Inv.once (h : Inv s) : Once s := by
  have habort : ∀ {i c}, s.calls i = some c → c.Live → (s.states c.ticket.state).retryTimer = none ∧
        (s.states c.ticket.state).abort = some i := by
    intro i c hi hlive
    have hphase := h.phase hi (h.live hi hlive)
    obtain ⟨events, hstage⟩ := hlive
    rwa [hstage] at hphase
  refine ⟨?_, ?_, ?_, h.delivered⟩
  · intro i j c d hi hj hc hd hserver
    have hstate : c.ticket.state = d.ticket.state := by
      have hget := (h.live hi hc).1
      rw [hserver, (h.live hj hd).1] at hget
      exact (some.inj hget).symm
    have hi := (habort hi hc).2
    rw [hstate, (habort hj hd).2] at hi
    exact (some.inj hi).symm
  · intro t u x y ht hu hserver
    obtain ⟨-, hget, htimer, -⟩ := h.timers ht
    obtain ⟨-, hget', htimer', -⟩ := h.timers hu
    rw [hserver, hget'] at hget
    rw [← some.inj hget, htimer'] at htimer
    exact (some.inj htimer).symm
  · intro i t c x hi hc ht hserver
    obtain ⟨-, hget, htimer, -⟩ := h.timers ht
    rw [← hserver, (h.live hi hc).1] at hget
    rw [← some.inj hget, (habort hi hc).1] at htimer
    cases htimer

/-! ## Connecting -/

/-- Between two states only the object `o` has changed, to `state`. -/
structure Replaces (s s' : State ServerId) (o : Nat) (state : StreamState) : Prop where
  self : s'.states o = state
  other : ∀ {o'}, o' ≠ o → s'.states o' = s.states o'

variable {s' : State ServerId} {o : Nat} {state : StreamState}

omit [DecidableEq ServerId] in
theorem replaces_update (h : s'.states = update s.states o state) : Replaces s s' o state :=
  ⟨by rw [h, update_self], fun ho => by rw [h, update_of_ne ho]⟩

variable {t : Ticket ServerId}

theorem registered_congr
    (hstreams : Assoc.get s'.streams t.serverId = Assoc.get s.streams t.serverId)
    (hstates : s'.states t.state = s.states t.state) : s'.registered t ↔ s.registered t := by
  unfold State.registered
  rw [hstreams, hstates]

omit [DecidableEq ServerId] in
theorem Replaces.generation (hs : Replaces s s' o state)
    (hgen : state.generation = (s.states o).generation) (o' : Nat) :
    (s'.states o').generation = (s.states o').generation := by
  by_cases ho : o' = o
  · rw [ho, hs.self, hgen]
  · rw [hs.other ho]

theorem Replaces.registered (hs : Replaces s s' o state)
    (hgen : state.generation = (s.states o).generation) (hstreams : s'.streams = s.streams)
    (t : Ticket ServerId) : s'.registered t ↔ s.registered t := by
  unfold State.registered
  rw [hstreams, hs.generation hgen]

theorem Inv.live_abort (h : Inv s) {c : Nat} {k : Call ServerId} (hk : s.calls c = some k)
    (hlive : k.Live) :
    (s.states k.ticket.state).retryTimer = none ∧ (s.states k.ticket.state).abort = some c := by
  have hphase := h.phase hk (h.live hk hlive)
  obtain ⟨events, hstage⟩ := hlive
  rwa [hstage] at hphase

/-- What `connect` does, unless the service has stopped. -/
structure Connects (s s' : State ServerId) (serverId : ServerId) (o : Nat) : Prop where
  streams : s'.streams = s.streams
  states : Replaces s s' o { s.states o with generation := (s.states o).generation + 1 }
  calls : s'.calls = Function.update s.calls s.next
    (some ⟨⟨serverId, o, (s.states o).generation + 1⟩, .connecting⟩)
  timers : s'.timers = s.timers
  next : s'.next = s.next + 1
  delivered : s'.delivered = s.delivered

omit [DecidableEq ServerId] in
theorem connects_connect (hstopped : s.stopped = false) (serverId : ServerId) (o : Nat) :
    Connects s (s.connect serverId o) serverId o := by
  unfold State.connect
  rw [if_neg (by simp [hstopped])]
  exact ⟨rfl, replaces_update rfl, rfl, rfl, rfl, rfl⟩

variable {serverId : ServerId}

theorem Inv.connects (h : Inv s) (hs : Connects s s' serverId o)
    (hget : Assoc.get s.streams serverId = some o) (htimer : (s.states o).retryTimer = none)
    (habort : (s.states o).abort = none) : Inv s' := by
  have hgen : ∀ {c k}, s.calls c = some k → k.ticket.state = o →
      k.ticket.generation ≠ (s.states o).generation + 1 := by
    rintro c k hk rfl
    have hle := (h.below hk).2.2
    omega
  refine ⟨?_, by rw [hs.streams]; exact h.injective, ?_, ?_, ?_, ?_, ?_, ?_, ?_⟩
  · intro id o' hid
    rw [hs.streams] at hid
    rw [hs.next]
    exact Nat.lt_succ_of_lt (h.mapped hid)
  · intro c k hk
    rw [hs.calls] at hk
    rw [hs.next]
    rcases Runs.update_eq_some hk with ⟨rfl, heq⟩ | ⟨-, hk⟩
    · obtain rfl := some.inj heq
      refine ⟨Nat.lt_succ_self _, Nat.lt_succ_of_lt (h.mapped hget), ?_⟩
      exact Nat.le_of_eq (congrArg StreamState.generation hs.states.self).symm
    · obtain ⟨hc, ho, hle⟩ := h.below hk
      refine ⟨Nat.lt_succ_of_lt hc, Nat.lt_succ_of_lt ho, ?_⟩
      by_cases heq : k.ticket.state = o
      · rw [heq] at hle ⊢
        rw [hs.states.self]
        exact Nat.le_succ_of_le hle
      · rwa [hs.states.other heq]
  · intro c d k l hk hl hstate hgeneration
    rw [hs.calls] at hk hl
    rcases Runs.update_eq_some hk with ⟨rfl, heq⟩ | ⟨-, hk⟩ <;>
      rcases Runs.update_eq_some hl with ⟨rfl, heq'⟩ | ⟨-, hl⟩
    · rfl
    · obtain rfl := some.inj heq
      exact absurd hgeneration.symm (hgen hl hstate.symm)
    · obtain rfl := some.inj heq'
      exact absurd hgeneration (hgen hk hstate)
    · exact h.unique hk hl hstate hgeneration
  · intro c k hk hlive
    rw [hs.calls] at hk
    rcases Runs.update_eq_some hk with ⟨rfl, heq⟩ | ⟨-, hk⟩
    · obtain rfl := some.inj heq
      obtain ⟨_, hstage⟩ := hlive
      cases hstage
    · have ho : k.ticket.state ≠ o := by
        intro heq
        have hsome := (h.live_abort hk hlive).2
        rw [heq, habort] at hsome
        cases hsome
      rw [registered_congr (by rw [hs.streams]) (hs.states.other ho)]
      exact h.live hk hlive
  · intro c k hk hreg
    rw [hs.calls] at hk
    rcases Runs.update_eq_some hk with ⟨rfl, heq⟩ | ⟨-, hk⟩
    · obtain rfl := some.inj heq
      rw [hs.states.self]
      exact ⟨htimer, habort⟩
    · have ho : k.ticket.state ≠ o := by
        intro heq
        have hgeneration := hreg.2
        rw [heq, hs.states.self] at hgeneration
        exact hgen hk heq hgeneration.symm
      rw [registered_congr (by rw [hs.streams]) (hs.states.other ho)] at hreg
      rw [hs.states.other ho]
      exact h.phase hk hreg
  · intro t x ht
    rw [hs.timers] at ht
    obtain ⟨hnext, hx, htimer', habort'⟩ := h.timers ht
    have ho : x.state ≠ o := by
      rintro rfl
      rw [htimer] at htimer'
      cases htimer'
    rw [hs.next, hs.streams, hs.states.other ho]
    exact ⟨Nat.lt_succ_of_lt hnext, hx, htimer', habort'⟩
  · rw [hs.delivered]
    exact h.delivered
  · intro c n hmem
    rw [hs.delivered] at hmem
    obtain ⟨t, ended, aborted, events, hc, hn⟩ := h.counted hmem
    have hlt := (h.below hc).1
    rw [hs.calls, update_of_ne (by omega)]
    exact ⟨t, ended, aborted, events, hc, hn⟩

theorem Inv.connect (h : Inv s) (hget : Assoc.get s.streams serverId = some o)
    (htimer : (s.states o).retryTimer = none)
    (habort : (s.states o).abort = none) : Inv (s.connect serverId o) := by
  cases hstopped : s.stopped with
  | true => rwa [State.connect, if_pos hstopped]
  | false => exact h.connects (connects_connect hstopped serverId o) hget htimer habort

/-! ## Stopping and starting -/

variable {stage : Stage}

theorem phase_aborted {c : Nat} : Phase c stage.aborted state ↔ Phase c stage state := by
  rcases stage with _ | ⟨_ | _, _, _⟩ <;> exact Iff.rfl

/-- Only an ended stream is registered with an object that has a timer. -/
theorem Phase.of_timer {c t : Nat} (h : Phase c stage state) (ht : state.retryTimer = some t)
    (state' : StreamState) : Phase c stage state' := by
  rcases stage with _ | ⟨_ | _, _, _⟩
  · have hnone := h.1
    rw [ht] at hnone
    cases hnone
  · have hnone := h.1
    rw [ht] at hnone
    cases hnone
  · trivial

/-- The stream of a state object is aborted and its timer cleared. -/
structure Retires (s s' : State ServerId) (o : Nat) (state : StreamState) : Prop where
  streams : ∀ {id o'}, Assoc.get s'.streams id = some o' → Assoc.get s.streams id = some o'
  others : ∀ {id o'}, Assoc.get s.streams id = some o' → o' ≠ o →
    Assoc.get s'.streams id = some o'
  states : Replaces s s' o state
  generation : state.generation = (s.states o).generation + 1
  calls : s'.calls = abort s.calls (s.states o).abort
  timers : s'.timers = clearTimeout s.timers (s.states o).retryTimer
  next : s'.next = s.next
  delivered : s'.delivered = s.delivered

/-- A registered call is one of another object. -/
theorem Retires.registered (hs : Retires s s' o state)
    (hle : t.generation ≤ (s.states t.state).generation) :
    s'.registered t ↔ t.state ≠ o ∧ s.registered t := by
  constructor
  · rintro ⟨hget, hgeneration⟩
    have ho : t.state ≠ o := by
      intro heq
      rw [heq, hs.states.self, hs.generation] at hgeneration
      rw [heq] at hle
      omega
    rw [hs.states.other ho] at hgeneration
    exact ⟨ho, hs.streams hget, hgeneration⟩
  · rintro ⟨ho, hget, hgeneration⟩
    rw [← hs.states.other ho] at hgeneration
    exact ⟨hs.others hget ho, hgeneration⟩

theorem Inv.retires (h : Inv s) (hs : Retires s s' o state) : Inv s' := by
  have hcall : ∀ {c k}, s'.calls c = some k → ∃ stage, s.calls c = some ⟨k.ticket, stage⟩ ∧
      ((k.stage = stage ∧ (s.states o).abort ≠ some c) ∨ k.stage = stage.aborted) := by
    intro c k hk
    rw [hs.calls] at hk
    exact abort_eq_some hk
  refine ⟨?_, fun hid hid' => h.injective (hs.streams hid) (hs.streams hid'), ?_, ?_, ?_, ?_, ?_, ?_, ?_⟩
  · intro id o' hid
    rw [hs.next]
    exact h.mapped (hs.streams hid)
  · intro c k hk
    obtain ⟨stage, hk, -⟩ := hcall hk
    obtain ⟨hc, ho, hle⟩ := h.below hk
    rw [hs.next]
    refine ⟨hc, ho, ?_⟩
    by_cases heq : k.ticket.state = o
    · rw [heq] at hle ⊢
      rw [hs.states.self, hs.generation]
      exact Nat.le_succ_of_le hle
    · rwa [hs.states.other heq]
  · intro c d k l hk hl hstate hgeneration
    obtain ⟨_, hk, -⟩ := hcall hk
    obtain ⟨_, hl, -⟩ := hcall hl
    exact h.unique hk hl hstate hgeneration
  · intro c k hk hlive
    obtain ⟨stage, hk, hstage⟩ := hcall hk
    obtain ⟨events, hstreaming⟩ := hlive
    rw [hs.registered (h.below hk).2.2]
    rcases hstage with ⟨rfl, habort⟩ | haborted
    · have hlive := h.live_abort hk ⟨events, hstreaming⟩
      refine ⟨?_, h.live hk ⟨events, hstreaming⟩⟩
      intro heq
      rw [heq] at hlive
      exact habort hlive.2
    · rw [haborted] at hstreaming
      cases stage <;> cases hstreaming
  · intro c k hk hreg
    obtain ⟨stage, hk, hstage⟩ := hcall hk
    obtain ⟨ho, hreg⟩ := (hs.registered (h.below hk).2.2).mp hreg
    rw [hs.states.other ho]
    have hphase := h.phase hk hreg
    rcases hstage with ⟨rfl, -⟩ | haborted
    · exact hphase
    · rw [haborted, phase_aborted]
      exact hphase
  · intro t x ht
    rw [hs.timers] at ht
    obtain ⟨ht, hcleared⟩ := clearTimeout_eq_some ht
    obtain ⟨hnext, hget, htimer, habort⟩ := h.timers ht
    have ho : x.state ≠ o := by
      rintro rfl
      exact hcleared htimer
    rw [hs.next, hs.states.other ho]
    exact ⟨hnext, hs.others hget ho, htimer, habort⟩
  · rw [hs.delivered]
    exact h.delivered
  · intro c n hmem
    rw [hs.delivered] at hmem
    obtain ⟨t, ended, aborted, events, hc, hn⟩ := h.counted hmem
    obtain ⟨stage, hc, rfl | rfl⟩ := @abort_of_some _ _ (s.states o).abort _ _ hc
    · exact ⟨t, ended, aborted, events, hs.calls ▸ hc, hn⟩
    · exact ⟨t, ended, true, events, hs.calls ▸ hc, hn⟩

theorem retires_stop (hget : Assoc.get s.streams serverId = some o) : Retires s (s.stop serverId) o
      { s.states o with generation := (s.states o).generation + 1 } := by
  rw [State.stop, hget]
  refine ⟨?_, ?_, replaces_update rfl, rfl, rfl, rfl, rfl, rfl⟩
  · intro id o' hid
    rw [Assoc.get_erase] at hid
    split at hid
    · cases hid
    · exact hid
  · intro id o' hid ho
    have hne : id ≠ serverId := by
      rintro rfl
      rw [hget] at hid
      exact ho (some.inj hid).symm
    rw [Assoc.get_erase, if_neg hne.symm]
    exact hid

theorem Inv.stop (h : Inv s) (serverId : ServerId) : Inv (s.stop serverId) := by
  cases hget : Assoc.get s.streams serverId with
  | none => rwa [State.stop, hget]
  | some o => exact h.retires (retires_stop hget)

/-- `restart` retires the state and connects it again. -/
theorem restart_eq (hget : Assoc.get s.streams serverId = some o) (hstopped : s.stopped = false) :
    ∃ s' state, s.restart serverId = s'.connect serverId o ∧ Retires s s' o state ∧
      state.retryTimer = none ∧ state.abort = none ∧ s'.streams = s.streams ∧
      s'.stopped = false := by
  rw [State.restart, hget]
  simp only []
  rw [if_neg (by simp [hstopped])]
  exact ⟨_, _, rfl, ⟨fun hid => hid, fun hid _ => hid, replaces_update rfl, rfl, rfl, rfl, rfl, rfl⟩,
    rfl, rfl, rfl, hstopped⟩

theorem Inv.restart (h : Inv s) (serverId : ServerId) : Inv (s.restart serverId) := by
  cases hget : Assoc.get s.streams serverId with
  | none => rwa [State.restart, hget]
  | some o =>
    cases hstopped : s.stopped with
    | true => simpa only [State.restart, hget, hstopped, if_true] using h
    | false =>
      obtain ⟨s', state, heq, hs, htimer, habort, hstreams, -⟩ := restart_eq hget hstopped
      rw [heq]
      refine (h.retires hs).connect (hstreams ▸ hget) ?_ ?_
      · rw [hs.states.self, htimer]
      · rw [hs.states.self, habort]

/-- A call is registered with the new object in the map if it was without it. -/
theorem registered_add (h : Inv s) (hget : Assoc.get s.streams serverId = none) {c : Nat}
    {k : Call ServerId}
    (hk : s.calls c = some k) : (s.add serverId).registered k.ticket ↔ s.registered k.ticket := by
  have ho := Nat.ne_of_lt (h.below hk).2.1
  have hstates : (s.add serverId).states k.ticket.state = s.states k.ticket.state :=
    update_of_ne ho ..
  by_cases hne : k.ticket.serverId = serverId
  · constructor
    · intro hreg
      have hstate := hreg.1
      rw [State.add, hne, Assoc.get_set, if_pos rfl] at hstate
      exact absurd (some.inj hstate).symm ho
    · intro hreg
      have hstate := hreg.1
      rw [hne, hget] at hstate
      cases hstate
  · refine registered_congr ?_ hstates
    rw [State.add, Assoc.get_set, if_neg (Ne.symm hne)]

theorem Inv.add (h : Inv s) (hget : Assoc.get s.streams serverId = none) :
    Inv (s.add serverId) := by
  have hstates : ∀ {o}, o < s.next → (s.add serverId).states o = s.states o :=
    fun ho => update_of_ne (Nat.ne_of_lt ho) ..
  have hcases : ∀ {id o}, Assoc.get (s.add serverId).streams id = some o →
      (id = serverId ∧ o = s.next) ∨ (o < s.next ∧ Assoc.get s.streams id = some o) := by
    intro id o hid
    rw [State.add, Assoc.get_set] at hid
    split at hid
    · rename_i heq
      exact Or.inl ⟨heq.symm, (some.inj hid).symm⟩
    · exact Or.inr ⟨h.mapped hid, hid⟩
  refine ⟨?_, ?_, ?_, h.unique, ?_, ?_, ?_, h.delivered, h.counted⟩
  · intro id o hid
    show o < s.next + 1
    rcases hcases hid with ⟨-, rfl⟩ | ⟨hlt, -⟩ <;> omega
  · intro id id' o hid hid'
    rcases hcases hid with ⟨rfl, rfl⟩ | ⟨hlt, hid⟩ <;>
      rcases hcases hid' with ⟨rfl, heq⟩ | ⟨hlt', hid'⟩
    · rfl
    · omega
    · omega
    · exact h.injective hid hid'
  · intro c k hk
    obtain ⟨hc, ho, hle⟩ := h.below hk
    rw [hstates ho]
    exact ⟨Nat.lt_succ_of_lt hc, Nat.lt_succ_of_lt ho, hle⟩
  · intro c k hk hlive
    exact (registered_add h hget hk).mpr (h.live hk hlive)
  · intro c k hk hreg
    rw [hstates (h.below hk).2.1]
    exact h.phase hk ((registered_add h hget hk).mp hreg)
  · intro t x ht
    obtain ⟨hnext, hx, htimer, habort⟩ := h.timers ht
    have hne : x.serverId ≠ serverId := by
      intro heq
      rw [heq, hget] at hx
      cases hx
    rw [hstates (h.mapped hx)]
    refine ⟨Nat.lt_succ_of_lt hnext, ?_, htimer, habort⟩
    rw [State.add, Assoc.get_set, if_neg (Ne.symm hne)]
    exact hx

/-- The new object and how it is found. -/
theorem add_self (serverId : ServerId) : Assoc.get (s.add serverId).streams serverId = some s.next ∧
      (s.add serverId).states s.next = fresh := by
  rw [State.add, Assoc.get_set, if_pos rfl]
  exact ⟨rfl, update_self ..⟩

theorem Inv.start (h : Inv s) (hget : Assoc.get s.streams serverId = none) :
    Inv (s.start serverId) := by
  obtain ⟨hstreams, hfresh⟩ := add_self (s := s) serverId
  refine (h.add hget).connect hstreams ?_ ?_ <;> rw [hfresh] <;> rfl

theorem Inv.stopAll (ids : List ServerId) :
    ∀ {s : State ServerId}, Inv s → Inv (s.stopAll ids) := by
  induction ids with
  | nil => exact fun h => h
  | cons id ids ih => exact fun h => ih (h.stop id)

theorem Inv.startAll (ids : List ServerId) :
    ∀ {s : State ServerId}, Inv s → Inv (s.startAll ids) := by
  induction ids with
  | nil => exact fun h => h
  | cons id ids ih =>
    intro s h
    rw [State.startAll, List.foldl_cons]
    by_cases hhas : (Assoc.get s.streams id).isSome
    · rw [if_pos hhas]
      exact ih h
    · rw [if_neg hhas]
      exact ih (h.start (by simpa using hhas))

/-! ## The end of a stream -/

/-- What `retry` does for the current ticket. -/
structure Retries (s s' : State ServerId) (t : Ticket ServerId) : Prop where
  streams : s'.streams = s.streams
  states : ∃ backoffMs, Replaces s s' t.state
    { s.states t.state with abort := none, retryTimer := some s.next, backoffMs := backoffMs }
  calls : s'.calls = s.calls
  timers : ∃ delay, s'.timers = Function.update s.timers s.next (some ⟨t.serverId, t.state, delay⟩)
  next : s'.next = s.next + 1
  delivered : s'.delivered = s.delivered
  stopped : s'.stopped = s.stopped

theorem retries_retry (hcurrent : s.current t = true) (now : Nat) :
    Retries s (s.retry t now) t := by
  unfold State.retry
  rw [if_pos hcurrent]
  exact ⟨rfl, ⟨_, replaces_update rfl⟩, rfl, ⟨_, rfl⟩, rfl, rfl, rfl⟩

theorem Inv.retries (h : Inv s) (hs : Retries s s' t) (hreg : s.registered t)
    (htimer : (s.states t.state).retryTimer = none)
    (hended : ∀ {c k}, s.calls c = some k → k.ticket.state = t.state →
      k.ticket.generation = t.generation →
        ∃ aborted events, k.stage = .streaming true aborted events) : Inv s' := by
  obtain ⟨backoffMs, hstates⟩ := hs.states
  obtain ⟨delay, htimers⟩ := hs.timers
  have hregistered := hstates.registered rfl hs.streams
  refine ⟨?_, by rw [hs.streams]; exact h.injective, ?_, ?_, ?_, ?_, ?_, ?_, ?_⟩
  · intro id o hid
    rw [hs.streams] at hid
    rw [hs.next]
    exact Nat.lt_succ_of_lt (h.mapped hid)
  · intro c k hk
    rw [hs.calls] at hk
    obtain ⟨hc, ho, hle⟩ := h.below hk
    rw [hs.next]
    refine ⟨Nat.lt_succ_of_lt hc, Nat.lt_succ_of_lt ho, ?_⟩
    by_cases ho : k.ticket.state = t.state
    · rw [ho] at hle ⊢
      rwa [hstates.self]
    · rwa [hstates.other ho]
  · intro c d k l hk hl
    rw [hs.calls] at hk hl
    exact h.unique hk hl
  · intro c k hk hlive
    rw [hs.calls] at hk
    exact (hregistered _).mpr (h.live hk hlive)
  · intro c k hk hreg'
    rw [hs.calls] at hk
    rw [hregistered] at hreg'
    by_cases ho : k.ticket.state = t.state
    · have hgeneration : k.ticket.generation = t.generation := by
        rw [← hreg'.2, ho, hreg.2]
      obtain ⟨aborted, events, hstage⟩ := hended hk ho hgeneration
      rw [hstage]
      trivial
    · rw [hstates.other ho]
      exact h.phase hk hreg'
  · intro u x hu
    rw [htimers] at hu
    rw [hs.next, hs.streams]
    rcases Runs.update_eq_some hu with ⟨rfl, heq⟩ | ⟨-, hu⟩
    · obtain rfl := some.inj heq
      refine ⟨Nat.lt_succ_self _, hreg.1, ?_⟩
      rw [hstates.self]
      exact ⟨rfl, rfl⟩
    · obtain ⟨hnext, hx, htimer', habort⟩ := h.timers hu
      have ho : x.state ≠ t.state := by
        intro heq
        rw [heq, htimer] at htimer'
        cases htimer'
      rw [hstates.other ho]
      exact ⟨Nat.lt_succ_of_lt hnext, hx, htimer', habort⟩
  · rw [hs.delivered]
    exact h.delivered
  · intro c n hmem
    rw [hs.delivered] at hmem
    rw [hs.calls]
    exact h.counted hmem

/-- `retry`, for a ticket no open stream and no waiting call has. -/
theorem Inv.retry (h : Inv s) (t : Ticket ServerId) (now : Nat)
    (htimer : s.current t = true → (s.states t.state).retryTimer = none)
    (hended : ∀ {c k}, s.calls c = some k → k.ticket.state = t.state →
      k.ticket.generation = t.generation →
        ∃ aborted events, k.stage = .streaming true aborted events) :
    Inv (s.retry t now) := by
  by_cases hcurrent : s.current t = true
  · have hreg : s.registered t := by
      simp only [State.current, and_eq_true, decide_eq_true_eq] at hcurrent
      exact hcurrent.2
    exact h.retries (retries_retry hcurrent now) hreg (htimer hcurrent) hended
  · rwa [State.retry, if_neg hcurrent]

/-! ## The other steps -/

/-- Other fields of a state object do not matter. -/
theorem Inv.modify (h : Inv s) (o : Nat) {f : StreamState → StreamState}
    (hf : ∀ state, (f state).generation = state.generation ∧
      (f state).retryTimer = state.retryTimer ∧ (f state).abort = state.abort) :
    Inv (s.modify o f) := by
  have hstates : Replaces s (s.modify o f) o (f (s.states o)) := replaces_update rfl
  have hregistered := hstates.registered (hf _).1 rfl
  have hother : ∀ o', ((s.modify o f).states o').retryTimer = (s.states o').retryTimer ∧
      ((s.modify o f).states o').abort = (s.states o').abort := by
    intro o'
    by_cases ho : o' = o
    · rw [ho, hstates.self]
      exact (hf _).2
    · rw [hstates.other ho]
      exact ⟨rfl, rfl⟩
  refine ⟨h.mapped, h.injective, ?_, h.unique, ?_, ?_, ?_, h.delivered, h.counted⟩
  · intro c k hk
    rw [hstates.generation (hf _).1]
    exact h.below hk
  · intro c k hk hlive
    exact (hregistered _).mpr (h.live hk hlive)
  · intro c k hk hreg
    have hphase := h.phase hk ((hregistered _).mp hreg)
    obtain ⟨htimer, habort⟩ := hother k.ticket.state
    unfold Phase at hphase ⊢
    rwa [htimer, habort]
  · intro t x ht
    obtain ⟨htimer, habort⟩ := hother x.state
    rw [htimer, habort]
    exact h.timers ht

theorem Inv.goesOn (h : Inv s) {c : Nat} {stage' : Stage} (hc : s.calls c = some ⟨t, stage⟩)
    (hcalls : s'.calls = update s.calls c (some ⟨t, stage'⟩))
    (hphase : ∀ state, Phase c stage state → Phase c stage' state)
    (hlive : (⟨t, stage'⟩ : Call ServerId).Live → (⟨t, stage⟩ : Call ServerId).Live)
    (hstates : s'.states = s.states) (hstreams : s'.streams = s.streams)
    (htimers : s'.timers = s.timers) (hnext : s'.next = s.next) (hdelivered : s'.delivered.Nodup)
    (hcounted : ∀ {d n}, (d, n) ∈ s'.delivered → ∃ t ended aborted events,
      s'.calls d = some ⟨t, .streaming ended aborted events⟩ ∧ n < events) : Inv s' := by
  have hregistered : ∀ u : Ticket ServerId, s'.registered u ↔ s.registered u := by
    intro u
    unfold State.registered
    rw [hstreams, hstates]
  have hcall : ∀ {d k}, s'.calls d = some k → ∃ stage, s.calls d = some ⟨k.ticket, stage⟩ := by
    intro d k hk
    rw [hcalls] at hk
    rcases Runs.update_eq_some hk with ⟨rfl, heq⟩ | ⟨-, hk⟩
    · obtain rfl := some.inj heq
      exact ⟨stage, hc⟩
    · exact ⟨k.stage, hk⟩
  refine ⟨?_, by rw [hstreams]; exact h.injective, ?_, ?_, ?_, ?_, ?_, hdelivered, hcounted⟩
  · rw [hstreams, hnext]
    exact h.mapped
  · intro d k hk
    obtain ⟨_, hk⟩ := hcall hk
    have hbelow := h.below hk
    rwa [hnext, hstates]
  · intro d e k l hk hl
    obtain ⟨_, hk⟩ := hcall hk
    obtain ⟨_, hl⟩ := hcall hl
    have hunique := h.unique hk hl
    exact hunique
  · intro d k hk hd
    rw [hregistered]
    rw [hcalls] at hk
    rcases Runs.update_eq_some hk with ⟨rfl, heq⟩ | ⟨-, hk⟩
    · obtain rfl := some.inj heq
      have hlive := h.live hc (hlive hd)
      exact hlive
    · exact h.live hk hd
  · intro d k hk hreg
    rw [hregistered] at hreg
    rw [hstates]
    rw [hcalls] at hk
    rcases Runs.update_eq_some hk with ⟨rfl, heq⟩ | ⟨-, hk⟩
    · obtain rfl := some.inj heq
      exact hphase _ (h.phase hc hreg)
    · exact h.phase hk hreg
  · intro u x hu
    rw [htimers] at hu
    rw [hnext, hstreams, hstates]
    exact h.timers hu

/-- A waiting call is over without a stream. -/
theorem Inv.giveUp (h : Inv s) {c : Nat} (hc : s.calls c = some ⟨t, .connecting⟩) :
    Inv { s with calls := update s.calls c none } := by
  have hcall : ∀ {d k}, update s.calls c none d = some k → s.calls d = some k := by
    intro d k hk
    rcases Runs.update_eq_some hk with ⟨-, habsurd⟩ | ⟨-, hk⟩
    · cases habsurd
    · exact hk
  refine ⟨h.mapped, h.injective, fun hk => h.below (hcall hk), fun hk hl => h.unique (hcall hk) (hcall hl),
    fun hk => h.live (hcall hk), fun hk => h.phase (hcall hk), h.timers, h.delivered, ?_⟩
  intro d n hmem
  obtain ⟨u, ended, aborted, events, hd, hn⟩ := h.counted hmem
  have hne : d ≠ c := by
    rintro rfl
    rw [hc] at hd
    cases hd
  exact ⟨u, ended, aborted, events, (update_of_ne hne ..).trans hd, hn⟩

/-- A call that has given up has left no other with its ticket. -/
theorem Inv.alone (h : Inv s) {c : Nat} (hc : s.calls c = some ⟨t, stage⟩) {d : Nat}
    {k : Call ServerId} (hk : update s.calls c none d = some k)
    (hstate : k.ticket.state = t.state) : k.ticket.generation ≠ t.generation := by
  intro hgeneration
  rcases Runs.update_eq_some hk with ⟨-, habsurd⟩ | ⟨hne, hk⟩
  · cases habsurd
  · exact hne (h.unique hk hc hstate hgeneration)

theorem Inv.opened (h : Inv s) {c : Nat} (hc : s.calls c = some ⟨t, .connecting⟩)
    (hreg : s.registered t) (now : Nat) :
    Inv { s.modify t.state fun state => { state with connectedAt := now, abort := some c } with
        calls := update s.calls c (some ⟨t, .streaming false false 0⟩) } := by
  obtain ⟨hbelow, ho, hle⟩ := h.below hc
  obtain ⟨htimer, habort⟩ : (s.states t.state).retryTimer = none ∧
      (s.states t.state).abort = none :=
    h.phase hc hreg
  have hstates : Replaces s
      { s.modify t.state fun state => { state with connectedAt := now, abort := some c } with
        calls := update s.calls c (some ⟨t, .streaming false false 0⟩) } t.state
      { s.states t.state with connectedAt := now, abort := some c } := replaces_update rfl
  have hregistered := hstates.registered rfl rfl
  have hcall : ∀ {d k}, update s.calls c (some ⟨t, .streaming false false 0⟩) d = some k →
      (d = c ∧ k = ⟨t, .streaming false false 0⟩) ∨ (d ≠ c ∧ s.calls d = some k) := by
    intro d k hk
    rcases Runs.update_eq_some hk with ⟨hd, heq⟩ | hk
    · exact Or.inl ⟨hd, (some.inj heq).symm⟩
    · exact Or.inr hk
  refine ⟨h.mapped, h.injective, ?_, ?_, ?_, ?_, ?_, h.delivered, ?_⟩
  · intro d k hk
    rw [hstates.generation rfl]
    rcases hcall hk with ⟨rfl, rfl⟩ | ⟨-, hk⟩
    · exact ⟨hbelow, ho, hle⟩
    · exact h.below hk
  · intro d e k l hk hl hstate hgeneration
    rcases hcall hk with ⟨rfl, rfl⟩ | ⟨-, hk'⟩ <;> rcases hcall hl with ⟨rfl, rfl⟩ | ⟨-, hl'⟩
    · rfl
    · exact h.unique hc hl' hstate hgeneration
    · exact h.unique hk' hc hstate hgeneration
    · exact h.unique hk' hl' hstate hgeneration
  · intro d k hk hlive
    rw [hregistered]
    rcases hcall hk with ⟨rfl, rfl⟩ | ⟨-, hk⟩
    · exact hreg
    · exact h.live hk hlive
  · intro d k hk hreg'
    rw [hregistered] at hreg'
    rcases hcall hk with ⟨rfl, rfl⟩ | ⟨hne, hk⟩
    · rw [hstates.self]
      exact ⟨htimer, rfl⟩
    · have hother : k.ticket.state ≠ t.state := by
        intro heq
        have hgeneration : k.ticket.generation = t.generation := by
          rw [← hreg'.2, heq, hreg.2]
        exact hne (h.unique hk hc heq hgeneration)
      rw [hstates.other hother]
      exact h.phase hk hreg'
  · intro u x hu
    obtain ⟨hnext, hx, htimer', habort'⟩ := h.timers hu
    have hother : x.state ≠ t.state := by
      intro heq
      rw [heq, htimer] at htimer'
      cases htimer'
    rw [hstates.other hother]
    exact ⟨hnext, hx, htimer', habort'⟩
  · intro d n hmem
    obtain ⟨u, ended, aborted, events, hd, hn⟩ := h.counted hmem
    have hne : d ≠ c := by
      rintro rfl
      rw [hc] at hd
      cases hd
    exact ⟨u, ended, aborted, events, (update_of_ne hne ..).trans hd, hn⟩

omit [DecidableEq ServerId] in
theorem replaces_expire (timer : Nat) (x : Timer ServerId) :
    Replaces s (s.expire timer x) x.state { s.states x.state with retryTimer := none } :=
  replaces_update rfl

theorem Inv.expire (h : Inv s) {timer : Nat} (ht : s.timers timer = some x) :
    Inv (s.expire timer x) := by
  obtain ⟨-, -, htimer, -⟩ := h.timers ht
  have hstates := replaces_expire (s := s) timer x
  have hregistered := hstates.registered rfl rfl
  refine ⟨h.mapped, h.injective, ?_, h.unique, ?_, ?_, ?_, h.delivered, h.counted⟩
  · intro c k hk
    rw [hstates.generation rfl]
    exact h.below hk
  · intro c k hk hlive
    exact (hregistered _).mpr (h.live hk hlive)
  · intro c k hk hreg
    have hphase := h.phase hk ((hregistered _).mp hreg)
    by_cases heq : k.ticket.state = x.state
    · rw [heq] at hphase
      exact hphase.of_timer htimer _
    · rwa [hstates.other heq]
  · intro u y hu
    rcases Runs.update_eq_some hu with ⟨-, habsurd⟩ | ⟨hne, hu⟩
    · cases habsurd
    obtain ⟨hnext', hy, htimer', habort'⟩ := h.timers hu
    have hother : y.state ≠ x.state := by
      intro heq
      rw [heq, htimer] at htimer'
      exact hne (some.inj htimer').symm
    rw [hstates.other hother]
    exact ⟨hnext', hy, htimer', habort'⟩

/-- A timer fires: its state object is without one, and without a stream. -/
theorem Inv.fire (h : Inv s) {timer : Nat} (ht : s.timers timer = some x) :
    Inv (s.fire timer x) := by
  obtain ⟨-, hget, -, habort⟩ := h.timers ht
  refine (h.expire ht).connect hget ?_ ?_
  · rw [(replaces_expire timer x).self]
  · rw [(replaces_expire timer x).self, habort]

theorem Inv.connected (h : Inv s) {c : Nat} (hc : s.calls c = some ⟨t, .connecting⟩) (now : Nat)
    (outcome : Outcome) : Inv (s.connected c t now outcome) := by
  have hgiveUp := h.giveUp hc
  have hidle : s.current t = true → (s.states t.state).retryTimer = none := by
    intro hcurrent
    simp only [State.current, and_eq_true, decide_eq_true_eq] at hcurrent
    have hphase := h.phase hc hcurrent.2
    exact hphase.1
  cases outcome with
  | rejected =>
    refine hgiveUp.retry t now hidle ?_
    intro d k hk hstate hgeneration
    exact absurd hgeneration (h.alone hc hk hstate)
  | threw =>
    rw [State.connected]
    by_cases hcurrent : s.current t = true
    · rw [if_pos hcurrent]
      have htouch : Inv (State.modify { s with calls := update s.calls c none } t.state
          fun state => { state with connectedAt := now }) :=
        hgiveUp.modify t.state (fun _ => ⟨rfl, rfl, rfl⟩)
      refine htouch.retry t now ?_ ?_
      · intro _
        simp only [State.modify, update_self]
        exact hidle hcurrent
      · intro d k hk hstate hgeneration
        exact absurd hgeneration (h.alone hc hk hstate)
    · rwa [if_neg hcurrent]
  | opened =>
    rw [State.connected]
    by_cases hcurrent : s.current t = true
    · rw [if_pos hcurrent]
      simp only [State.current, and_eq_true, decide_eq_true_eq] at hcurrent
      exact h.opened hc hcurrent.2 now
    · rwa [if_neg hcurrent]

variable {events : Nat} {aborted : Bool}

theorem Inv.ended (h : Inv s) {c : Nat} {ended : Bool}
    (hc : s.calls c = some ⟨t, .streaming ended aborted events⟩) (now : Nat)
    (hquiet : ended = true → s.current t = false) : Inv (s.ended c t aborted events now) := by
  have hgoesOn : Inv (s.markEnded c t aborted events) := by
    refine h.goesOn hc rfl (fun _ _ => trivial) ?_ rfl rfl rfl rfl h.delivered ?_
    · rintro ⟨_, habsurd⟩
      cases habsurd
    · intro d n hmem
      obtain ⟨u, ended', aborted', events', hd, hn⟩ := h.counted hmem
      by_cases heq : d = c
      · subst heq
        rw [hc] at hd
        cases hd
        exact ⟨t, true, aborted, events, update_self .., hn⟩
      · exact ⟨u, ended', aborted', events', (update_of_ne heq ..).trans hd, hn⟩
  refine hgoesOn.retry t now ?_ ?_
  · intro hcurrent
    cases ended with
    | true =>
      have hnot : s.current t = false := hquiet rfl
      exact absurd (hnot.symm.trans hcurrent) (by simp)
    | false =>
      simp only [State.current, and_eq_true, decide_eq_true_eq] at hcurrent
      have hphase := h.phase hc hcurrent.2
      exact hphase.1
  · intro d k hk hstate hgeneration
    rcases Runs.update_eq_some hk with ⟨-, heq⟩ | ⟨hne, hk⟩
    · obtain rfl := some.inj heq
      exact ⟨aborted, events, rfl⟩
    · exact absurd (h.unique hk hc hstate hgeneration) hne

theorem Inv.event (h : Inv s) {c : Nat} {ended : Bool}
    (hc : s.calls c = some ⟨t, .streaming ended aborted events⟩) :
    Inv (s.event c t ended aborted events) := by
  have hnew : (c, events) ∉ s.delivered := by
    intro hmem
    obtain ⟨u, ended', aborted', events', hd, hn⟩ := h.counted hmem
    rw [hc] at hd
    cases hd
    omega
  have hcounted : ∀ {d n}, (d, n) = (c, events) ∨ (d, n) ∈ s.delivered →
      ∃ t' ended' aborted' events', update s.calls c
        (some (⟨t, .streaming ended aborted (events + 1)⟩ : Call ServerId)) d =
          some ⟨t', .streaming ended' aborted' events'⟩ ∧ n < events' := by
    rintro d n (heq | hmem)
    · cases heq
      exact ⟨t, ended, aborted, events + 1, update_self .., Nat.lt_succ_self _⟩
    · obtain ⟨u, ended', aborted', events', hd, hn⟩ := h.counted hmem
      by_cases heq : d = c
      · subst heq
        rw [hc] at hd
        cases hd
        exact ⟨t, ended, aborted, events + 1, update_self .., Nat.lt_succ_of_lt hn⟩
      · exact ⟨u, ended', aborted', events', (update_of_ne heq ..).trans hd, hn⟩
  have hphase : ∀ state, Phase c (.streaming ended aborted events) state →
      Phase c (.streaming ended aborted (events + 1)) state := by
    cases ended <;> exact fun _ hphase => hphase
  have hlive : (⟨t, .streaming ended aborted (events + 1)⟩ : Call ServerId).Live →
      (⟨t, .streaming ended aborted events⟩ : Call ServerId).Live := by
    rintro ⟨_, heq⟩
    cases heq
    exact ⟨events, rfl⟩
  unfold State.event
  by_cases hcurrent : s.current t = true
  · simp only [hcurrent, if_true]
    have hgoesOn : Inv { s with
        calls := update s.calls c (some ⟨t, .streaming ended aborted (events + 1)⟩)
        delivered := (c, events) :: s.delivered } :=
      h.goesOn hc rfl hphase hlive rfl rfl rfl rfl (List.nodup_cons.mpr ⟨hnew, h.delivered⟩)
        fun hmem => hcounted (List.mem_cons.mp hmem)
    exact hgoesOn.modify t.state (f := fun state => { state with backoffMs := 1000 })
      fun _ => ⟨rfl, rfl, rfl⟩
  · simp only [hcurrent]
    exact h.goesOn hc rfl hphase hlive rfl rfl rfl rfl h.delivered fun hmem => hcounted (Or.inr hmem)

theorem Inv.congr (h : Inv s) (hstreams : s'.streams = s.streams) (hstates : s'.states = s.states)
    (hcalls : s'.calls = s.calls) (htimers : s'.timers = s.timers) (hnext : s'.next = s.next)
    (hdelivered : s'.delivered = s.delivered) : Inv s' := by
  obtain ⟨stopped, streams, states, calls, timers, next, listing, delivered⟩ := s'
  obtain ⟨_, _, _, _, _, _, _, _⟩ := s
  simp only at hstreams hstates hcalls htimers hnext hdelivered
  subst hstreams hstates hcalls htimers hnext hdelivered
  exact ⟨h.mapped, h.injective, h.below, h.unique, h.live, h.phase, h.timers, h.delivered, h.counted⟩

theorem inv_step {a : Action ServerId} (h : Inv s) (hquiet : Quiet s a)
    (hstep : step s a = some s') : Inv s' := by
  cases a with
  | reconcile =>
    cases hstep
    split
    · exact h
    · exact h.congr rfl rfl rfl rfl rfl rfl
  | listed ids =>
    simp only [step] at hstep
    split at hstep
    · cases hstep
    · have hlisted : Inv { s with listing := s.listing - 1 } := h.congr rfl rfl rfl rfl rfl rfl
      cases ids with
      | none =>
        cases hstep
        exact hlisted
      | some ids =>
        cases hstep
        exact (hlisted.startAll ids).stopAll _
  | restart serverId =>
    cases hstep
    exact h.restart serverId
  | shutdown =>
    cases hstep
    have hstopped : Inv { s with stopped := true } := h.congr rfl rfl rfl rfl rfl rfl
    exact hstopped.stopAll _
  | timer timer =>
    obtain ⟨x, ht, rfl⟩ := map_eq_some_iff.mp hstep
    exact h.fire ht
  | connected call outcome now =>
    simp only [step] at hstep
    split at hstep
    · rename_i t hc
      cases hstep
      exact h.connected hc now outcome
    · cases hstep
  | event call =>
    simp only [step] at hstep
    split at hstep
    · rename_i t ended aborted events hc
      cases hstep
      exact h.event hc
    · cases hstep
  | ended call now =>
    simp only [step] at hstep
    split at hstep
    · rename_i t ended aborted events hc
      cases hstep
      refine h.ended hc now ?_
      rintro rfl
      exact hquiet t aborted events hc
    · cases hstep

end Aoox.RemoteEvents
