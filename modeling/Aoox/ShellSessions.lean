import Aoox.Runs

/-! # The sessions of the shell gateways

A socket that connects with a good ticket gets a shell.  Opening it takes several awaited
calls, and the gateway attaches its handlers behind the last of them: when the socket has
dropped by then the shell is closed, and otherwise it is registered, so that a disconnect
closes it and its own end disconnects the socket.

The stream of a shell reports its end once.  A report that comes while the gateway still
waits, for the answer to the resize or for the promise of the open shell, is heard by
nobody, and then the socket stays connected to a shell that has ended.  Every shell is with
a connected socket or closed, and no socket is with an ended shell, exactly when no such
shell is registered (`settled_iff`).
-/
open Option
namespace Aoox.ShellSessions

/-! ## The gateways -/

/-- Where a shell is opened: in a container, next to the API, on the host over SSH, or on a
registered server. -/
inductive Target where
  | container
  | localPty
  | host
  | server

structure Gateway where
  /-- Awaited calls in front of the one that opens the shell. -/
  before : Target → Nat
  /-- Awaited behind it, before the handlers are attached; a failure changes nothing. -/
  after : Nat
  /-- Awaited in the `catch` block before the socket is disconnected. -/
  refusal : Nat
  /-- Awaited after the shell has ended before the socket is disconnected. -/
  farewell : Nat

def ConsoleGateway : Gateway where
  before _ := 2 -- `forServer`, the `POST` of the exec
  after := 1 -- `resizeExec`, which catches every error
  refusal := 0
  farewell := 2 -- `forServer`, `execExitCode`

def TerminalGateway : Gateway where
  before
    | .server => 2 -- `servers.resolve`, the connection
    | .host => 1
    | .localPty | .container => 0
  after := 1 -- the promise of `backend.open`
  refusal := 1 -- `describeOpenError`
  farewell := 0

/-- What `handleConnection` waits for. -/
inductive Stage where
  /-- A call in front of the opening; so many more come before it. -/
  | preparing (left : Nat)
  | opening
  /-- A call behind it; so many more come. -/
  | settling (left : Nat)
  | refusing (left : Nat)
  | ended
  deriving DecidableEq

inductive Shell where
  | unopened
  | live
  /-- It has ended, or was closed, and the stream has not reported it. -/
  | ended
  | reported
  deriving DecidableEq

/-- `kill`, `socket.destroy`. -/
def Shell.kill : Shell → Shell
  | live => ended
  | shell => shell

/-- A socket, with what its gateway knows of it. -/
structure Client where
  connected : Bool
  stage : Stage
  shell : Shell
  /-- The session is in the map of the gateway. -/
  registered : Bool
  /-- The handlers are attached. -/
  heard : Bool
  /-- The shell's end was heard; so many awaited calls are left before the socket goes. -/
  leaving : Option Nat

namespace Client
variable (c : Client)

def handleDisconnect : Client :=
  if c.registered then { c with registered := false, shell := c.shell.kill } else c

/-- The socket goes, from either side. -/
def disconnect : Client :=
  if c.connected then { c with connected := false }.handleDisconnect else c

/-- The rest of `handleConnection`, which is not interrupted. -/
def attach : Client :=
  if c.connected then { c with stage := .ended, registered := true, heard := true }
  else { c with stage := .ended, shell := c.shell.kill }

def prepare : Nat → Client
  | 0 => { c with stage := .opening }
  | left + 1 => { c with stage := .preparing left }

def settle : Nat → Client
  | 0 => c.attach
  | left + 1 => { c with stage := .settling left }

def refuse : Nat → Client
  | 0 => { c.disconnect with stage := .ended }
  | left + 1 => { c with stage := .refusing left }

/-- `finish`. -/
def leave : Nat → Client
  | 0 => { c.disconnect with leaving := none }
  | left + 1 => { c with leaving := some left }

end Client

/-- A handshake that was accepted. -/
def connect (G : Gateway) (target : Target) : Client :=
  { connected := true
    stage := .opening
    shell := .unopened
    registered := false
    heard := false
    leaving := none : Client }.prepare (G.before target)

inductive Event where
  /-- What `handleConnection` waits for has succeeded or failed. -/
  | settled (ok : Bool)
  | disconnect
  /-- The shell ends by itself. -/
  | exit
  /-- The stream reports its end. -/
  | close
  /-- What `finish` waits for has succeeded or failed. -/
  | finished (ok : Bool)

variable (G : Gateway)

def clientStep (c : Client) : Event → Option Client
  | .settled ok =>
    match c.stage with
    | .preparing left => some (if ok then c.prepare left else c.refuse G.refusal)
    | .opening =>
      some (if ok then { c with shell := .live }.settle G.after else c.refuse G.refusal)
    | .settling left => some (c.settle left)
    | .refusing left => some (c.refuse left)
    | .ended => none
  | .disconnect => if c.connected then some c.disconnect else none
  | .exit => if c.shell = .live then some { c with shell := .ended } else none
  | .close =>
    if c.shell = .ended then
      some (if c.heard then { c with shell := .reported, registered := false }.leave G.farewell
        else { c with shell := .reported })
    else none
  | .finished ok =>
    match c.leaving with
    | some left => some (c.leave (if ok then left else 0))
    | none => none

abbrev State := Nat → Option Client

inductive Action where
  | connect (n : Nat) (target : Target)
  | event (n : Nat) (e : Event)

def step (s : State) : Action → Option State
  | .connect n target =>
    if (s n).isSome then none else some (Function.update s n (some (connect G target)))
  | .event n e =>
    (s n).bind fun c => (clientStep G c e).map fun c' => Function.update s n (some c')

/-- Nothing is under way for a socket. -/
def Client.Quiet (c : Client) : Prop :=
  c.stage = .ended ∧ c.shell ≠ .ended ∧ c.leaving = none

/-- A shell is registered for a connected socket or closed, and no socket is connected to an
ended shell. -/
def Client.Settled (c : Client) : Prop :=
  (c.shell = .live → c.registered = true ∧ c.connected = true) ∧
    (c.shell = .reported → c.connected = false)

def Settled (s : State) : Prop := ∀ n c, s n = some c → c.Quiet → c.Settled

/-- The next thing the gateway does is to attach its handlers. -/
def Client.attaches (c : Client) : Bool := c.stage = .settling 0

/-- When the handlers are attached for a connected socket, the shell's end has not been
reported. -/
def Heard (s : State) : Action → Prop
  | .event n (.settled _) => ∀ c, s n = some c → c.attaches = true → c.connected = true →
      c.shell ≠ .reported
  | _ => True

/-! ## The invariant -/

/-- Before `handleConnection` has opened the shell, behind that, and when it has ended. -/
structure Client.Inv (c : Client) : Prop where
  unopened : (∃ left, c.stage = .preparing left) ∨ c.stage = .opening ∨
    (∃ left, c.stage = .refusing left) → c.shell = .unopened
  unattached : c.stage ≠ .ended → c.registered = false ∧ c.heard = false ∧ c.leaving = none
  registered : c.registered = true → c.connected = true ∧ c.heard = true
  live : c.stage = .ended → c.shell = .live → c.registered = true
  ended : c.stage = .ended → c.shell = .ended → c.connected = true → c.heard = true
  reported : c.stage = .ended → c.shell = .reported → c.connected = true → c.leaving.isSome = true
  leaving : c.leaving.isSome = true → c.registered = false ∧ c.shell = .reported

variable {G} {c c' : Client}

theorem Client.Inv.settled (h : c.Inv) (hquiet : c.Quiet) : c.Settled := by
  obtain ⟨hstage, -, hleaving⟩ := hquiet
  refine ⟨?_, ?_⟩
  · intro hlive
    have hregistered := h.live hstage hlive
    exact ⟨hregistered, (h.registered hregistered).1⟩
  · intro hreported
    by_contra hconnected
    have hleaves := h.reported hstage hreported (by simpa using hconnected)
    rw [hleaving] at hleaves
    cases hleaves

theorem kill_ne_live (shell : Shell) : shell.kill ≠ .live := by
  cases shell <;> decide

theorem kill_eq_unopened {shell : Shell} (h : shell = .unopened) : shell.kill = .unopened := by
  subst h
  rfl

/-- Only a shell that is registered or whose handlers will be attached is affected. -/
theorem disconnect_inv (h : c.Inv) : c.disconnect.Inv := by
  rw [Client.disconnect]
  by_cases hconnected : c.connected = true
  · rw [if_pos hconnected, Client.handleDisconnect]
    by_cases hregistered : c.registered = true
    · rw [if_pos hregistered]
      refine ⟨?_, ?_, ?_, ?_, ?_, ?_, ?_⟩
      · exact fun hstage => kill_eq_unopened (h.unopened hstage)
      · exact fun hstage => ⟨rfl, (h.unattached hstage).2⟩
      · exact fun h => by cases h
      · exact fun _ hlive => absurd hlive (kill_ne_live c.shell)
      · exact fun _ _ h => by cases h
      · exact fun _ _ h => by cases h
      · intro hleaving
        rw [(h.leaving hleaving).1] at hregistered
        cases hregistered
    · rw [if_neg hregistered]
      refine ⟨h.unopened, h.unattached, ?_, h.live, ?_, ?_, h.leaving⟩
      · exact fun hr => absurd hr hregistered
      · exact fun _ _ h => by cases h
      · exact fun _ _ h => by cases h
  · rw [if_neg hconnected]
    exact h

/-- No shell is open yet, or none will be. -/
theorem inv_of_unopened (hshell : c.shell = .unopened) (hregistered : c.registered = false)
    (hheard : c.heard = false) (hleaving : c.leaving = none) : c.Inv where
  unopened _ := hshell
  unattached _ := ⟨hregistered, hheard, hleaving⟩
  registered h := by rw [hregistered] at h; cases h
  live _ h := by rw [hshell] at h; cases h
  ended _ h := by rw [hshell] at h; cases h
  reported _ h := by rw [hshell] at h; cases h
  leaving h := by rw [hleaving] at h; cases h

/-- Steps in front of the opening. -/
theorem Client.Inv.restage (h : c.Inv) (hshell : c.shell = .unopened) (hstage : c.stage ≠ .ended)
    (stage : Stage) : ({ c with stage := stage } : Client).Inv := by
  obtain ⟨hregistered, hheard, hleaving⟩ := h.unattached hstage
  exact inv_of_unopened hshell hregistered hheard hleaving

theorem disconnect_unregistered (h : c.registered = false) :
    c.disconnect = { c with connected := false } := by
  obtain ⟨connected, stage, shell, registered, heard, leaving⟩ := c
  obtain rfl : registered = false := h
  cases connected <;> rfl

theorem refuse_inv (h : c.Inv) (hshell : c.shell = .unopened) (hstage : c.stage ≠ .ended)
    (left : Nat) : (c.refuse left).Inv := by
  cases left with
  | succ left => exact h.restage hshell hstage _
  | zero =>
    obtain ⟨hregistered, hheard, hleaving⟩ := h.unattached hstage
    rw [Client.refuse, disconnect_unregistered hregistered]
    exact inv_of_unopened hshell hregistered hheard hleaving

theorem prepare_inv (h : c.Inv) (hshell : c.shell = .unopened) (hstage : c.stage ≠ .ended)
    (left : Nat) : (c.prepare left).Inv := by
  cases left with
  | zero => exact h.restage hshell hstage _
  | succ left => exact h.restage hshell hstage _

/-- **The handlers are attached** to a shell whose end was not reported, or closed. -/
theorem settle_inv (hregistered : c.registered = false) (hheard : c.heard = false)
    (hleaving : c.leaving = none) (left : Nat)
    (hreported : left = 0 → c.connected = true → c.shell ≠ .reported) : (c.settle left).Inv := by
  cases left with
  | succ left =>
    refine ⟨?_, fun _ => ⟨hregistered, hheard, hleaving⟩, ?_, ?_, ?_, ?_, ?_⟩
    · rintro (⟨_, h⟩ | h | ⟨_, h⟩) <;> cases h
    · intro h
      rw [show (c.settle (left + 1)).registered = false from hregistered] at h
      cases h
    · exact fun h => by cases h
    · exact fun h => by cases h
    · exact fun h => by cases h
    · intro h
      rw [show (c.settle (left + 1)).leaving = none from hleaving] at h
      cases h
  | zero =>
    rw [Client.settle, Client.attach]
    by_cases hconnected : c.connected = true
    · rw [if_pos hconnected]
      refine ⟨?_, fun h => absurd rfl h, fun _ => ⟨hconnected, rfl⟩, fun _ _ => rfl, fun _ _ _ => rfl,
        ?_, ?_⟩
      · rintro (⟨_, h⟩ | h | ⟨_, h⟩) <;> cases h
      · exact fun _ h => absurd h (hreported rfl hconnected)
      · intro h
        rw [hleaving] at h
        cases h
    · rw [if_neg hconnected]
      refine ⟨?_, fun h => absurd rfl h, ?_, ?_, ?_, ?_, ?_⟩
      · rintro (⟨_, h⟩ | h | ⟨_, h⟩) <;> cases h
      · intro h
        rw [hregistered] at h
        cases h
      · exact fun _ h => absurd h (kill_ne_live c.shell)
      · exact fun _ _ h => absurd h hconnected
      · exact fun _ _ h => absurd h hconnected
      · intro h
        rw [hleaving] at h
        cases h

/-- What a step of one socket asks for. -/
def Client.Heard (c : Client) : Event → Prop
  | .settled _ => c.attaches = true → c.connected = true → c.shell ≠ .reported
  | _ => True

/-- **What `handleConnection` waits for.** -/
theorem Client.Inv.awaited (h : c.Inv) {ok : Bool} (hheard : c.Heard (.settled ok))
    (hstep : clientStep G c (.settled ok) = some c') : c'.Inv := by
  simp only [clientStep] at hstep
  split at hstep
  · rename_i left hstage
    have hshell := h.unopened (Or.inl ⟨left, hstage⟩)
    have hne : c.stage ≠ .ended := by
      rw [hstage]
      exact fun h => by cases h
    obtain rfl := some.inj hstep
    split
    · exact prepare_inv h hshell hne left
    · exact refuse_inv h hshell hne _
  · rename_i hstage
    have hshell := h.unopened (Or.inr (Or.inl hstage))
    have hne : c.stage ≠ .ended := by
      rw [hstage]
      exact fun h => by cases h
    obtain ⟨hregistered, hunheard, hleaving⟩ := h.unattached hne
    obtain rfl := some.inj hstep
    split
    · refine settle_inv (c := { c with shell := .live }) hregistered hunheard hleaving _ ?_
      intro _ _
      show Shell.live ≠ .reported
      decide
    · exact refuse_inv h hshell hne _
  · rename_i left hstage
    have hne : c.stage ≠ .ended := by
      rw [hstage]
      exact fun h => by cases h
    obtain ⟨hregistered, hunheard, hleaving⟩ := h.unattached hne
    obtain rfl := some.inj hstep
    refine settle_inv hregistered hunheard hleaving left ?_
    rintro rfl
    exact hheard (by simp [Client.attaches, hstage])
  · rename_i left hstage
    have hshell := h.unopened (Or.inr (Or.inr ⟨left, hstage⟩))
    have hne : c.stage ≠ .ended := by
      rw [hstage]
      exact fun h => by cases h
    obtain rfl := some.inj hstep
    exact refuse_inv h hshell hne left
  · cases hstep

theorem leave_inv (hstage : c.stage = .ended) (hregistered : c.registered = false)
    (hshell : c.shell = .reported) (left : Nat) : (c.leave left).Inv := by
  have hopened : ¬ ((∃ left, c.stage = .preparing left) ∨ c.stage = .opening ∨
      ∃ left, c.stage = .refusing left) := by
    rw [hstage]
    rintro (⟨_, h⟩ | h | ⟨_, h⟩) <;> cases h
  have hlive : c.shell ≠ .live := by
    rw [hshell]
    decide
  have hended : c.shell ≠ .ended := by
    rw [hshell]
    decide
  cases left with
  | succ left =>
    refine ⟨fun h => absurd h hopened, fun h => absurd hstage h, ?_, fun _ h => absurd h hlive,
      fun _ h => absurd h hended, fun _ _ _ => rfl, fun _ => ⟨hregistered, hshell⟩⟩
    intro h
    rw [show (c.leave (left + 1)).registered = false from hregistered] at h
    cases h
  | zero =>
    rw [Client.leave, disconnect_unregistered hregistered]
    refine ⟨fun h => absurd h hopened, fun h => absurd hstage h, ?_, fun _ h => absurd h hlive,
      fun _ h => absurd h hended, ?_, ?_⟩
    · intro h
      rw [hregistered] at h
      cases h
    · exact fun _ _ h => by cases h
    · exact fun h => by cases h

/-- **The end of a shell is reported.** -/
theorem Client.Inv.close (h : c.Inv) (hshell : c.shell = .ended)
    (hstep : clientStep G c .close = some c') : c'.Inv := by
  simp only [clientStep, if_pos hshell] at hstep
  obtain rfl := some.inj hstep
  by_cases hheard : c.heard = true
  · rw [if_pos hheard]
    have hstage : c.stage = .ended := by
      by_contra hne
      rw [(h.unattached hne).2.1] at hheard
      cases hheard
    refine leave_inv ?_ ?_ ?_ _
    · exact hstage
    · rfl
    · rfl
  · rw [if_neg hheard]
    refine ⟨?_, h.unattached, h.registered, fun _ h => by (cases h), fun _ h => by (cases h), ?_, ?_⟩
    · intro hstage
      rw [h.unopened hstage] at hshell
      cases hshell
    · intro hstage _ hconnected
      exact absurd (h.ended hstage hshell hconnected) hheard
    · intro hleaving
      rw [(h.leaving hleaving).2] at hshell
      cases hshell

/-- **One event of a socket.** -/
theorem Client.Inv.step (h : c.Inv) {e : Event} (hheard : c.Heard e)
    (hstep : clientStep G c e = some c') : c'.Inv := by
  cases e with
  | settled ok => exact h.awaited hheard hstep
  | disconnect =>
    simp only [clientStep] at hstep
    split at hstep
    · obtain rfl := some.inj hstep
      exact disconnect_inv h
    · cases hstep
  | exit =>
    simp only [clientStep] at hstep
    split at hstep
    · rename_i hlive
      obtain rfl := some.inj hstep
      refine ⟨?_, h.unattached, h.registered, fun _ h => by (cases h), ?_, fun _ h => by (cases h), ?_⟩
      · intro hstage
        rw [h.unopened hstage] at hlive
        cases hlive
      · intro hstage _ _
        exact (h.registered (h.live hstage hlive)).2
      · intro hleaving
        rw [(h.leaving hleaving).2] at hlive
        cases hlive
    · cases hstep
  | close =>
    by_cases hshell : c.shell = .ended
    · exact h.close hshell hstep
    · simp only [clientStep, if_neg hshell] at hstep
      cases hstep
  | finished ok =>
    simp only [clientStep] at hstep
    split at hstep
    · rename_i left hleft
      obtain ⟨hregistered, hshell⟩ := h.leaving (by rw [hleft]; rfl)
      have hstage : c.stage = .ended := by
        by_contra hne
        rw [(h.unattached hne).2.2] at hleft
        cases hleft
      obtain rfl := some.inj hstep
      exact leave_inv hstage hregistered hshell _
    · cases hstep

theorem connect_inv (G : Gateway) (target : Target) : (connect G target).Inv := by
  rw [connect]
  cases G.before target <;> exact inv_of_unopened rfl rfl rfl rfl

/-! ## Runs -/

def Inv (s : State) : Prop := ∀ n c, s n = some c → c.Inv

variable {s s' : State}

theorem Inv.step (h : Inv s) {a : Action} (hheard : Heard s a) (hstep : step G s a = some s') :
    Inv s' := by
  cases a with
  | connect n target =>
    simp only [ShellSessions.step] at hstep
    split at hstep
    · cases hstep
    · cases hstep
      intro m c hm
      rcases Runs.update_eq_some hm with ⟨-, hnew⟩ | ⟨-, hold⟩
      · obtain rfl := some.inj hnew
        exact connect_inv G target
      · exact h m c hold
  | event n e =>
    simp only [ShellSessions.step, bind_eq_some_iff, map_eq_some_iff] at hstep
    obtain ⟨c, hc, c', hclient, rfl⟩ := hstep
    have hheard' : c.Heard e := by
      cases e with
      | settled ok => exact hheard c hc
      | disconnect | exit | close | finished => trivial
    intro m c'' hm
    rcases Runs.update_eq_some hm with ⟨-, hnew⟩ | ⟨-, hold⟩
    · obtain rfl := some.inj hnew
      exact (h n c hc).step hheard' hclient
    · exact h m c'' hold

theorem Inv.settled (h : Inv s) : Settled s := fun n c hc hquiet => (h n c hc).settled hquiet

/-- **A shell that is registered after its end was reported** stays with its socket. -/
theorem not_settled_of_unheard (h : Inv s) {a : Action} (hunheard : ¬ Heard s a) :
    ∃ s', step G s a = some s' ∧ ¬ Settled s' := by
  cases a with
  | connect n target => exact absurd trivial hunheard
  | event n e =>
    cases e with
    | disconnect | exit | close | finished => exact absurd trivial hunheard
    | settled ok =>
      simp only [Heard, not_forall, not_not] at hunheard
      obtain ⟨c, hc, hattaches, hconnected, hreported⟩ := hunheard
      have hstage : c.stage = .settling 0 := by simpa [Client.attaches] using hattaches
      have hne : c.stage ≠ .ended := by
        rw [hstage]
        exact fun h => by cases h
      have hattached : clientStep G c (.settled ok) =
          some { c with stage := .ended, registered := true, heard := true } := by
        simp [clientStep, hstage, Client.settle, Client.attach, hconnected]
      refine ⟨Function.update s n (some { c with stage := .ended, registered := true, heard := true }),
        ?_, ?_⟩
      · rw [step, hc, bind_some, hattached, map_some]
      · intro hsettled
        have hquiet := hsettled n _ (Function.update_self n _ s) ?_
        · have hgone := hquiet.2 hreported
          rw [show ({ c with stage := .ended, registered := true, heard := true } : Client).connected =
            true from hconnected] at hgone
          cases hgone
        · refine ⟨rfl, ?_, ((h n c hc).unattached hne).2.2⟩
          show c.shell ≠ .ended
          rw [hreported]
          decide

def initial : State := fun _ => none

/-- **No shell outlives its socket and no socket an ended shell exactly when every end that is
reported before the handlers are attached finds its socket gone by then.** -/
theorem settled_iff (G : Gateway) (as : List Action) :
    Runs.Throughout (step G) Settled initial as ↔ Runs.Meets (step G) Heard initial as := by
  refine Runs.throughout_iff_meets (fun _ _ _ h hheard hstep => Inv.step h hheard hstep)
    (fun _ h => Inv.settled h) (fun _ _ h hunheard => not_settled_of_unheard h hunheard) as initial ?_
  intro n c h
  cases h

/-! ## A shell that ends at once -/

/-- The shell ends and its stream reports that before `handleConnection` goes on: the exec of
a console while its resize is answered, the login shell of a server that does not allow
any before the promise of the session is kept. -/
def endsAtOnce (target : Target) (before : Nat) : List Action :=
  .connect 0 target :: List.replicate before (.event 0 (.settled true)) ++
    [.event 0 (.settled true), .event 0 .exit, .event 0 .close, .event 0 (.settled true)]

theorem socket_outlives_shell :
    (¬ ∀ as, Runs.Throughout (step ConsoleGateway) Settled initial as) ∧
      ¬ ∀ as, Runs.Throughout (step TerminalGateway) Settled initial as := by
  have hends : ∀ G as s c, Runs.exec (step G) initial as = some s → s 0 = some c →
      c.stage = .ended ∧ c.shell = .reported ∧ c.leaving = none ∧ c.connected = true →
      ¬ ∀ as, Runs.Throughout (step G) Settled initial as := by
    rintro G as s c hexec hc ⟨hstage, hshell, hleaving, hconnected⟩ h
    have hsettled := h as as s (List.prefix_refl as) hexec 0 c hc ⟨hstage, by simp [hshell], hleaving⟩
    rw [hsettled.2 hshell] at hconnected
    cases hconnected
  constructor
  · exact hends _ (endsAtOnce .container 2) _ _ rfl rfl ⟨rfl, rfl, rfl, rfl⟩
  · exact hends _ (endsAtOnce .server 2) _ _ rfl rfl ⟨rfl, rfl, rfl, rfl⟩

end Aoox.ShellSessions
