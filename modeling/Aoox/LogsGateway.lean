import Aoox.DeploymentLog

/-! # Following the log of a deployment

A socket subscribes to one deployment at a time.  The gateway reads the row, registers the
listeners, and sends the text so far: the live text of the process while the deployment
runs, the row's once it has ended.  Every subscribe, unsubscribe and disconnect raises the
generation of the socket, and a call that finds another generation behind an await stops, so
a socket has one pair of listeners at most.

A deployment that is queued has no live text yet.  The gateway takes it for one that has just
ended and reads the row again, with the listeners already there; what is emitted meanwhile
reaches the client and is then replaced by a text that was read before it.

`step` is one socket among deployments that run.  A client that follows a deployment to its
end has all of its text (`follows_to_end`) as long as a second read that was made before the
end holds what was emitted until its text is sent, and no save takes text away from a row.
-/
open Option Function
namespace Aoox.DeploymentLogs.Gateway

/-! ## The gateway -/

/-- What the socket's clean-up function stops. -/
inductive Subscription where
  | deployment (n d : Nat)
  | container (n : Nat)

/-- How far a call is: what it waits for, and what it has read.  `ended` is whether the
deployment had ended when the listeners were registered. -/
inductive Phase where
  | reading (d : Nat)
  | read (d : Nat) (row : Option Row)
  | rereading (d : Nat) (row : Row) (ended : Bool)
  | reread (d : Nat) (row : Row) (ended : Bool) (fresh : Option Row)
  /-- `subscribe:container`, before its last await and while it streams. -/
  | container
  | streaming

structure Call where
  generation : Nat
  phase : Phase

/-- The deployments; the socket's entries in the maps of the gateway, its listeners and its
calls; and the client: the call and the deployment it follows, whether their snapshot has
come, and the text it shows of each deployment. -/
structure State where
  deployments : Nat → Option Deployment
  generation : Option Nat
  connected : Bool
  subscription : Option Subscription
  listeners : List (Nat × Nat)
  calls : Nat → Option Call
  following : Option (Nat × Nat)
  delivered : Bool
  text : Nat → JsString

def initial : State where
  deployments := fun _ => none
  generation := none
  connected := true
  subscription := none
  listeners := []
  calls := fun _ => none
  following := none
  delivered := false
  text := fun _ => []

inductive Action where
  | queue (d : Nat)
  | log (d : Nat) (a : LogAction)
  | subscribe (n d : Nat)
  /-- The row of a call is read; the call goes on later. -/
  | find (n : Nat)
  | resume (n : Nat)
  | findFresh (n : Nat)
  | resumeFresh (n : Nat)
  | subscribeContainer (n : Nat)
  | stream (n : Nat)
  | streamEnd (n : Nat)
  | unsubscribe
  | disconnect

def State.call (s : State) (n : Nat) (c : Option Call) : State :=
  { s with calls := Function.update s.calls n c }

/-- What is left of the listeners behind the clean-up. -/
def remaining (listeners : List (Nat × Nat)) : Option Subscription → List (Nat × Nat)
  | some (.deployment n d) => listeners.filter (· ≠ (n, d))
  | some (.container _) | none => listeners

def State.unsubscribe (s : State) : State :=
  { s with
    generation := some (s.generation.getD 0 + 1)
    subscription := none
    listeners := remaining s.listeners s.subscription }

/-- The snapshot and the status are sent; a deployment that is not active any more needs no
listeners. -/
def State.answer (s : State) (n d : Nat) (text : JsString) (status : DeploymentStatus) : State :=
  let s := { s.call n none with text := Function.update s.text d text, delivered := true }
  if status.inFlight then s else s.unsubscribe

/-- A chunk reaches the client once for every listener. -/
def State.deliver (s : State) (d : Nat) (chunk : JsString) : Nat → JsString :=
  Function.update s.text d (s.text d ++ (s.listeners.filter (·.2 = d)).flatMap fun _ => chunk)

def State.row (s : State) (d : Nat) : Option Row := (s.deployments d).map Deployment.row

def State.hasEnded (s : State) (d : Nat) : Bool := (s.deployments d).any fun D => D.stage = .ended

def step (s : State) : Action → Option State
  | .queue d =>
    if (s.deployments d).isSome then none
    else some { s with deployments := Function.update s.deployments d (some .queued) }
  | .log d a =>
    (s.deployments d).bind fun D => (D.step a).map fun D' =>
      { s with deployments := Function.update s.deployments d (some D'), text := s.deliver d a.chunk }
  | .subscribe n d =>
    if !s.connected || (s.calls n).isSome then none
    else
      let s := s.unsubscribe
      some { s.call n (s.generation.map fun g => ⟨g, .reading d⟩) with
        following := some (n, d), delivered := false }
  | .find n =>
    match s.calls n with
    | some ⟨g, .reading d⟩ => some (s.call n (some ⟨g, .read d (s.row d)⟩))
    | _ => none
  | .resume n =>
    match s.calls n with
    | some ⟨g, .read d row⟩ =>
      if s.generation ≠ some g then some (s.call n none)
      else
        match row with
        -- the client is told that there is no such deployment
        | none => some { s.call n none with following := none }
        | some row =>
          let s := { s with listeners := (n, d) :: s.listeners, subscription := some (.deployment n d) }
          match (s.deployments d).bind Deployment.live with
          | some live => some (s.answer n d live row.status)
          | none =>
            -- taken for a deployment that has just ended; one that has not begun looks the same
            if row.status.inFlight then some (s.call n (some ⟨g, .rereading d row (s.hasEnded d)⟩))
            else some (s.answer n d row.logs row.status)
    | _ => none
  | .findFresh n =>
    match s.calls n with
    | some ⟨g, .rereading d row ended⟩ => some (s.call n (some ⟨g, .reread d row ended (s.row d)⟩))
    | _ => none
  | .resumeFresh n =>
    match s.calls n with
    | some ⟨g, .reread d row _ fresh⟩ =>
      if s.generation ≠ some g then some (s.call n none)
      else
        let last := fresh.getD row
        some (s.answer n d last.logs last.status)
    | _ => none
  | .subscribeContainer n =>
    if !s.connected || (s.calls n).isSome then none
    else
      let s := s.unsubscribe
      some { s.call n (s.generation.map fun g => ⟨g, .container⟩) with following := none, delivered := false }
  | .stream n =>
    match s.calls n with
    | some ⟨g, .container⟩ =>
      if s.generation ≠ some g then some (s.call n none)
      else some { s.call n (some ⟨g, .streaming⟩) with subscription := some (.container n) }
    | _ => none
  | .streamEnd n =>
    match s.calls n with
    | some ⟨g, .streaming⟩ =>
      if s.generation ≠ some g then some (s.call n none)
      else some { s.call n none with subscription := none }
    | _ => none
  | .unsubscribe =>
    if !s.connected then none else some { s.unsubscribe with following := none, delivered := false }
  | .disconnect =>
    if !s.connected then none
    else some { s.unsubscribe with
      generation := none, connected := false, following := none, delivered := false }

/-! ## What a client gets -/

/-- One subscription at most, none behind an unsubscribe or a disconnect, and the whole text for
a client that has followed a deployment to its end and whose call has returned. -/
structure Follows (s : State) : Prop where
  single : s.listeners.length ≤ 1
  noneLeft : s.connected = false ∨ s.following = none → s.listeners = []
  complete : ∀ n d D, s.following = some (n, d) → s.calls n = none → s.deployments d = some D →
    D.stage = .ended → s.text d = D.emitted

/-- A second read that was made before the deployment had ended holds what was emitted until its
text is sent. -/
def Call.UpToDate (s : State) : Option Call → Prop
  | some ⟨g, .reread d row false fresh⟩ => s.generation = some g →
      ∀ D, s.deployments d = some D → (fresh.getD row).logs = D.emitted
  | _ => True

instance (s : State) : DecidablePred (Call.UpToDate s)
  | some ⟨g, .reread d row false fresh⟩ => inferInstanceAs (Decidable (s.generation = some g →
      ∀ D, s.deployments d = some D → (fresh.getD row).logs = D.emitted))
  | some ⟨_, .reread _ _ true _⟩ | some ⟨_, .reading _⟩ | some ⟨_, .read _ _⟩ | some ⟨_, .rereading _ _ _⟩
  | some ⟨_, .container⟩ | some ⟨_, .streaming⟩ | none => isTrue trivial

/-- Second reads are up to date, and no save takes text away from a row. -/
def UpToDate (s : State) : Action → Prop
  | .log d a => ∀ D, s.deployments d = some D → Forward D a
  | .resumeFresh n => Call.UpToDate s (s.calls n)
  | _ => True

instance (s : State) : DecidablePred (UpToDate s)
  | .log d a => inferInstanceAs (Decidable (∀ D, s.deployments d = some D → Forward D a))
  | .resumeFresh n => inferInstanceAs (Decidable (Call.UpToDate s (s.calls n)))
  | .queue _ | .subscribe _ _ | .find _ | .resume _ | .findFresh _ | .subscribeContainer _ | .stream _
  | .streamEnd _ | .unsubscribe | .disconnect => isTrue trivial

/-! ## The invariant -/

def Subscription.listeners : Subscription → List (Nat × Nat)
  | deployment n d => [(n, d)]
  | container _ => []

/-- What holds while call `n` is the current one. -/
def Phase.At (s : State) (n : Nat) : Phase → Prop
  | .reading d | .read d _ => s.following = some (n, d) ∧ s.subscription = none ∧ s.delivered = false
  | .rereading d _ _ | .reread d _ _ _ =>
    s.following = some (n, d) ∧ s.subscription = some (.deployment n d) ∧ s.delivered = false
  | .container | .streaming => s.following = none

/-- What a call has read. -/
def Phase.Knows (deployments : Nat → Option Deployment) : Phase → Prop
  | .reading _ | .container | .streaming => True
  | .read d row => ∀ r, row = some r → ∃ D, deployments d = some D ∧ r.Final D
  | .rereading d _ ended => ∃ D, deployments d = some D ∧ (ended = true → D.stage = .ended)
  | .reread d _ ended fresh => ∃ D r, deployments d = some D ∧ fresh = some r ∧ r.Final D ∧
      (ended = true → D.stage = .ended ∧ r.logs = D.emitted)

/-- The sockets' maps agree with each other, with the calls on their way and with the client. -/
structure Coherent (s : State) : Prop where
  offline : s.connected = false → s.generation = none ∧ s.subscription = none ∧ s.following = none
  listeners : s.listeners = (s.subscription.map Subscription.listeners).getD []
  subscription : ∀ n d, s.subscription = some (.deployment n d) → s.following = some (n, d)
  older : s.connected = true → ∀ n c, s.calls n = some c → ∃ g, s.generation = some g ∧ c.generation ≤ g
  current : ∀ n c, s.calls n = some c → s.generation = some c.generation → c.phase.At s n
  single : ∀ n m c c', s.calls n = some c → s.calls m = some c' → s.generation = some c.generation →
    s.generation = some c'.generation → n = m
  kept : ∀ d D, s.deployments d = some D → Kept D
  knows : ∀ n c, s.calls n = some c → c.phase.Knows s.deployments
  shown : ∀ n d, s.following = some (n, d) → s.delivered = true → ∃ D, s.deployments d = some D ∧
    s.text d = D.emitted ∧ (s.listeners = [(n, d)] ∨ D.stage ≠ .running)

variable {s s' : State} {n d g : Nat}

theorem coherent_initial : Coherent initial where
  offline h := by cases h
  listeners := rfl
  subscription n d h := by cases h
  older _ n c h := by cases h
  current n c h := by cases h
  single n m c c' h := by cases h
  kept d D h := by cases h
  knows n c h := by cases h
  shown n d h := by cases h

/-! ## The calls of the socket -/

/-- **The clean-up** leaves no listeners. -/
theorem Coherent.cleared (h : Coherent s) : s.unsubscribe.listeners = [] := by
  have hlisteners := h.listeners
  cases hsub : s.subscription with
  | none => simpa [State.unsubscribe, remaining, hsub] using hlisteners
  | some sub =>
    cases sub with
    | deployment n d =>
      rw [hsub] at hlisteners
      simp [State.unsubscribe, remaining, hsub, hlisteners, Subscription.listeners]
    | container n => simpa [State.unsubscribe, remaining, hsub, Subscription.listeners] using hlisteners

variable {c : Call}

/-- Behind a new generation no call is the current one. -/
theorem Coherent.stale (h : Coherent s) (hconnected : s.connected = true)
    (hn : s.calls n = some c) : s.unsubscribe.generation ≠ some c.generation := by
  obtain ⟨g, hg, hle⟩ := h.older hconnected n c hn
  simp only [State.unsubscribe, hg, getD_some, ne_eq, Option.some.injEq]
  omega

/-- **Unsubscribing**, where what the client is left with is complete. -/
theorem Coherent.unsubscribe (h : Coherent s) (hconnected : s.connected = true)
    (following : Option (Nat × Nat)) (delivered : Bool)
    (hshown : ∀ n d, following = some (n, d) → delivered = true → ∃ D, s.deployments d = some D ∧
      s.text d = D.emitted ∧ D.stage ≠ .running) :
    Coherent { s.unsubscribe with following := following, delivered := delivered } where
  offline hoffline := by
    rw [show s.connected = false from hoffline] at hconnected
    cases hconnected
  listeners := h.cleared
  subscription n d hsub := by cases hsub
  older _ n c hn := by
    obtain ⟨g, hg, hle⟩ := h.older hconnected n c hn
    refine ⟨g + 1, ?_, Nat.le_succ_of_le hle⟩
    simp only [State.unsubscribe, hg, getD_some]
  current n c hn hcurrent := absurd hcurrent (h.stale hconnected hn)
  single n m c c' hn _ hcurrent := absurd hcurrent (h.stale hconnected hn)
  kept := h.kept
  knows := h.knows
  shown n d hf hd := by
    obtain ⟨D, hD, htext, hstage⟩ := hshown n d hf hd
    exact ⟨D, hD, htext, Or.inr hstage⟩

theorem Coherent.drop (h : Coherent s) (n : Nat) : Coherent (s.call n none) where
  offline := h.offline
  listeners := h.listeners
  subscription := h.subscription
  older hconnected m c hm := by
    rcases Runs.update_eq_some hm with ⟨-, hnew⟩ | ⟨-, hold⟩
    · cases hnew
    · exact h.older hconnected m c hold
  current m c hm hcurrent := by
    rcases Runs.update_eq_some hm with ⟨-, hnew⟩ | ⟨-, hold⟩
    · cases hnew
    · exact h.current m c hold hcurrent
  single m l c c' hm hl := by
    rcases Runs.update_eq_some hm with ⟨-, hnew⟩ | ⟨-, hold⟩
    · cases hnew
    · rcases Runs.update_eq_some hl with ⟨-, hnew⟩ | ⟨-, hold'⟩
      · cases hnew
      · exact h.single m l c c' hold hold'
  kept := h.kept
  knows m c hm := by
    rcases Runs.update_eq_some hm with ⟨-, hnew⟩ | ⟨-, hold⟩
    · cases hnew
    · exact h.knows m c hold
  shown := h.shown

/-- **A call that starts or goes on**, where no other call is the current one when it is. -/
theorem Coherent.place (h : Coherent s)
    (holder : s.connected = true → ∃ g, s.generation = some g ∧ c.generation ≤ g)
    (hcurrent : s.generation = some c.generation → c.phase.At s n)
    (hknows : c.phase.Knows s.deployments)
    (hothers : s.generation = some c.generation → ∀ m c', s.calls m = some c' →
      s.generation = some c'.generation → m = n) : Coherent (s.call n (some c)) where
  offline := h.offline
  listeners := h.listeners
  subscription := h.subscription
  older hconnected m c' hm := by
    rcases Runs.update_eq_some hm with ⟨-, hnew⟩ | ⟨-, hold⟩
    · cases hnew
      exact holder hconnected
    · exact h.older hconnected m c' hold
  current m c' hm hc := by
    have hat : c'.phase.At s m := by
      rcases Runs.update_eq_some hm with ⟨rfl, hnew⟩ | ⟨-, hold⟩
      · cases hnew
        exact hcurrent hc
      · exact h.current m c' hold hc
    cases hphase : c'.phase <;> (rw [hphase] at hat; exact hat)
  single m l c₁ c₂ hm hl hg₁ hg₂ := by
    rcases Runs.update_eq_some hm with ⟨rfl, hnew⟩ | ⟨-, hold⟩
    · cases hnew
      rcases Runs.update_eq_some hl with ⟨rfl, -⟩ | ⟨-, hold'⟩
      · rfl
      · exact (hothers hg₁ l c₂ hold' hg₂).symm
    · rcases Runs.update_eq_some hl with ⟨rfl, hnew⟩ | ⟨-, hold'⟩
      · cases hnew
        exact hothers hg₂ m c₁ hold hg₁
      · exact h.single m l c₁ c₂ hold hold' hg₁ hg₂
  kept := h.kept
  knows m c' hm := by
    rcases Runs.update_eq_some hm with ⟨-, hnew⟩ | ⟨-, hold⟩
    · cases hnew
      exact hknows
    · exact h.knows m c' hold
  shown := h.shown

variable {p q : Phase}

theorem Coherent.goOn (h : Coherent s) (hn : s.calls n = some ⟨g, p⟩) (hat : p.At s n → q.At s n)
    (hknows : q.Knows s.deployments) : Coherent (s.call n (some ⟨g, q⟩)) := by
  refine h.place ?_ ?_ hknows ?_
  · intro hconnected
    exact h.older hconnected n ⟨g, p⟩ hn
  · intro hcurrent
    exact hat (h.current n ⟨g, p⟩ hn hcurrent)
  · intro hcurrent m c' hm hg
    exact h.single m n c' ⟨g, p⟩ hm hn hg hcurrent

/-- **The listeners are registered.** -/
theorem Coherent.register (h : Coherent s) {row : Option Row} (hn : s.calls n = some ⟨g, .read d row⟩)
    (hg : s.generation = some g) :
    Coherent (State.call { s with
      listeners := (n, d) :: s.listeners, subscription := some (.deployment n d) } n none) := by
  obtain ⟨hfollowing, hsub, hdelivered⟩ := h.current n ⟨g, .read d row⟩ hn hg
  have hempty : s.listeners = [] := by
    rw [h.listeners, hsub]
    rfl
  have hstale : ∀ m c, m ≠ n → s.calls m = some c → s.generation ≠ some c.generation := by
    intro m c hne hm hcurrent
    exact hne (h.single m n c ⟨g, .read d row⟩ hm hn hcurrent hg)
  have hdrop := h.drop n
  constructor
  · intro hoffline
    rw [(h.offline hoffline).1] at hg
    cases hg
  · rw [hempty]
    rfl
  · intro m e he
    cases he
    exact hfollowing
  · exact hdrop.older
  · intro m c hm hcurrent
    rcases Runs.update_eq_some hm with ⟨-, hnew⟩ | ⟨hne, hold⟩
    · cases hnew
    · exact absurd hcurrent (hstale m c hne hold)
  · exact hdrop.single
  · exact h.kept
  · exact hdrop.knows
  · intro m e _ hd
    rw [show s.delivered = true from hd] at hdelivered
    cases hdelivered

variable {D : Deployment} {text : JsString}

/-- **The snapshot reaches the client.** -/
theorem Coherent.deliver (h : Coherent s) (hfree : s.calls n = none)
    (hfollowing : s.following = some (n, d)) (hsub : s.subscription = some (.deployment n d))
    (hD : s.deployments d = some D) (htext : text = D.emitted) :
    Coherent { s with text := update s.text d text, delivered := true } where
  offline := h.offline
  listeners := h.listeners
  subscription := h.subscription
  older := h.older
  current m c hm hcurrent := by
    -- a call that is the current one would be the one the client follows
    have hat := h.current m c hm hcurrent
    have hne : m ≠ n := by
      rintro rfl
      rw [hfree] at hm
      cases hm
    cases hphase : c.phase <;> simp_all [Phase.At]
  single := h.single
  kept := h.kept
  knows := h.knows
  shown m e he _ := by
    have hsame := hfollowing.symm.trans he
    cases hsame
    refine ⟨D, hD, ?_, Or.inl ?_⟩
    · simp only [update_self, htext]
    · rw [h.listeners, hsub]
      rfl

/-- **A call answers.** -/
theorem Coherent.answer (h : Coherent (s.call n none)) {status : DeploymentStatus}
    (hfollowing : s.following = some (n, d)) (hsub : s.subscription = some (.deployment n d))
    (hD : s.deployments d = some D) (htext : text = D.emitted)
    (hstatus : status.inFlight = false → D.stage ≠ .running) :
    Coherent (s.answer n d text status) := by
  have hdelivered := h.deliver (n := n) (update_self ..) hfollowing hsub hD htext
  simp only [State.answer]
  split
  · exact hdelivered
  · rename_i hterminal
    have hconnected : s.connected = true := by
      by_contra hoffline
      obtain ⟨-, -, hnone⟩ := h.offline (by simpa [State.call] using hoffline)
      rw [show s.following = none from hnone] at hfollowing
      cases hfollowing
    refine hdelivered.unsubscribe hconnected s.following true ?_
    intro m e he _
    have hsame := hfollowing.symm.trans he
    cases hsame
    refine ⟨D, hD, ?_, hstatus (by simpa using hterminal)⟩
    simp only [update_self, htext]

/-! ## The deployments -/

/-- What is known of a deployment that does not run any more stays true. -/
theorem Phase.Knows.mono {p : Phase} {deployments deployments' : Nat → Option Deployment}
    (hp : p.Knows deployments) (honward : ∀ d D, deployments d = some D →
      ∃ D', deployments' d = some D' ∧ D.Onward D') : p.Knows deployments' := by
  have hfinal : ∀ (r : Row) (D D' : Deployment), D.Onward D' → r.Final D → r.Final D' := by
    intro r D D' ho hr hterminal
    obtain ⟨hstage, hlogs⟩ := hr hterminal
    obtain ⟨hstage', hemitted⟩ := ho.1 hstage
    exact ⟨hstage', hlogs.trans hemitted.symm⟩
  cases p with
  | reading d => trivial
  | read d row =>
    intro r hr
    obtain ⟨D, hD, hknown⟩ := hp r hr
    obtain ⟨D', hD', ho⟩ := honward d D hD
    exact ⟨D', hD', hfinal r D D' ho hknown⟩
  | rereading d row ended =>
    obtain ⟨D, hD, hended⟩ := hp
    obtain ⟨D', hD', ho⟩ := honward d D hD
    exact ⟨D', hD', fun he => ho.2 (hended he)⟩
  | reread d row ended fresh =>
    obtain ⟨D, r, hD, hr, hknown, hended⟩ := hp
    obtain ⟨D', hD', ho⟩ := honward d D hD
    refine ⟨D', r, hD', hr, hfinal r D D' ho hknown, ?_⟩
    intro he
    obtain ⟨hstage, hlogs⟩ := hended he
    have hstopped : D.stage ≠ .running := by
      rw [hstage]
      exact fun hr => by cases hr
    exact ⟨ho.2 hstage, hlogs.trans (ho.1 hstopped).2.symm⟩
  | container => trivial
  | streaming => trivial

/-- **A deployment goes on**, and its chunks reach the listeners. -/
theorem Coherent.log (h : Coherent s) {D' : Deployment} {a : LogAction}
    (hD : s.deployments d = some D) (ha : Forward D a) (hstep : D.step a = some D') :
    Coherent { s with
      deployments := update s.deployments d (some D'), text := s.deliver d a.chunk } := by
  have hkept := h.kept d D hD
  obtain ⟨hemitted, hstopped, hended⟩ := hkept.emitted hstep
  constructor
  · exact h.offline
  · exact h.listeners
  · exact h.subscription
  · exact h.older
  · intro m c hm hcurrent
    have hat := h.current m c hm hcurrent
    cases hphase : c.phase <;> (rw [hphase] at hat; exact hat)
  · exact h.single
  · intro e E hE
    rcases Runs.update_eq_some hE with ⟨rfl, hnew⟩ | ⟨-, hold⟩
    · cases hnew
      exact hkept.step ha hstep
    · exact h.kept e E hold
  · intro m c hm
    refine (h.knows m c hm).mono ?_
    intro e E hE
    by_cases he : e = d
    · subst he
      rw [hD] at hE
      cases hE
      refine ⟨D', update_self .., ?_, hended⟩
      intro hstage
      obtain ⟨hnone, hstage'⟩ := hstopped hstage
      rw [hnone, List.append_nil] at hemitted
      exact ⟨hstage', hemitted⟩
    · exact ⟨E, (update_of_ne he ..).trans hE, fun hstage => ⟨hstage, rfl⟩, id⟩
  · intro m e hf hdelivered
    obtain ⟨E, hE, htext, hlive⟩ := h.shown m e hf hdelivered
    by_cases he : e = d
    · subst he
      rw [hD] at hE
      cases hE
      refine ⟨D', update_self .., ?_, ?_⟩
      · simp only [State.deliver, update_self, hemitted, htext]
        rcases hlive with hlistening | hstage
        · simp [hlistening]
        · simp [(hstopped hstage).1]
      · rcases hlive with hlistening | hstage
        · exact Or.inl hlistening
        · exact Or.inr (hstopped hstage).2
    · refine ⟨E, (update_of_ne he ..).trans hE, ?_, hlive⟩
      simp only [State.deliver, update_of_ne he, htext]

theorem Coherent.queue (h : Coherent s) (hnew : s.deployments d = none) :
    Coherent { s with deployments := update s.deployments d (some .queued) } := by
  have hother : ∀ e E, s.deployments e = some E →
      update s.deployments d (some Deployment.queued) e = some E := by
    intro e E hE
    have hne : e ≠ d := by
      rintro rfl
      rw [hnew] at hE
      cases hE
    rw [update_of_ne hne, hE]
  constructor
  · exact h.offline
  · exact h.listeners
  · exact h.subscription
  · exact h.older
  · intro m c hm hcurrent
    have hat := h.current m c hm hcurrent
    cases hphase : c.phase <;> (rw [hphase] at hat; exact hat)
  · exact h.single
  · intro e E hE
    rcases Runs.update_eq_some hE with ⟨-, hnew⟩ | ⟨-, hold⟩
    · cases hnew
      exact kept_queued
    · exact h.kept e E hold
  · intro m c hm
    refine (h.knows m c hm).mono ?_
    exact fun e E hE => ⟨E, hother e E hE, fun hstage => ⟨hstage, rfl⟩, id⟩
  · intro m e hf hdelivered
    obtain ⟨E, hE, htext, hlive⟩ := h.shown m e hf hdelivered
    exact ⟨E, hother e E hE, htext, hlive⟩

/-! ## One step -/

/-- A subscribe is the current call of its socket. -/
theorem Coherent.start (h : Coherent s) (hconnected : s.connected = true)
    {following : Option (Nat × Nat)} (hknows : p.Knows s.deployments)
    (hat : p.At { s.unsubscribe with following := following, delivered := false } n) :
    Coherent { s.unsubscribe.call n (s.unsubscribe.generation.map fun g => ⟨g, p⟩) with
      following := following, delivered := false } := by
  have hcleared := h.unsubscribe hconnected following false fun _ _ _ hd => by cases hd
  refine hcleared.place (c := ⟨s.generation.getD 0 + 1, p⟩) ?_ ?_ hknows ?_
  · exact fun _ => ⟨_, rfl, Nat.le_refl _⟩
  · exact fun _ => hat
  · exact fun _ m c' hm hcurrent => absurd hcurrent (h.stale hconnected hm)

theorem Coherent.idle (h : Coherent s) (hfollowing : s.following = none) : s.listeners = [] := by
  rw [h.listeners]
  cases hsub : s.subscription with
  | none => rfl
  | some sub =>
    cases sub with
    | deployment m e =>
      rw [h.subscription m e hsub] at hfollowing
      cases hfollowing
    | container m => rfl

/-- What a container stream does to the entry of its socket. -/
theorem Coherent.replaced (h : Coherent s) (hfollowing : s.following = none)
    (hg : s.generation = some g) {sub : Option Subscription}
    (hsub : (sub.map Subscription.listeners).getD [] = []) : Coherent { s with subscription := sub } := by
  constructor
  · intro hoffline
    rw [(h.offline hoffline).1] at hg
    cases hg
  · exact (h.idle hfollowing).trans hsub.symm
  · intro m e he
    rw [show sub = some (.deployment m e) from he] at hsub
    cases hsub
  · exact h.older
  · intro m c hm hcurrent
    have hat := h.current m c hm hcurrent
    cases hphase : c.phase <;> simp_all [Phase.At]
  · exact h.single
  · exact h.kept
  · exact h.knows
  · intro m e he
    rw [show s.following = some (m, e) from he] at hfollowing
    cases hfollowing

/-- A socket goes. -/
theorem Coherent.disconnect (h : Coherent s) (hconnected : s.connected = true) :
    Coherent { s.unsubscribe with
      generation := none, connected := false, following := none, delivered := false } := by
  have hcleared := h.unsubscribe hconnected none false fun _ _ hf => by cases hf
  refine { hcleared with offline := ?_, older := ?_, current := ?_, single := ?_ }
  · exact fun _ => ⟨rfl, rfl, rfl⟩
  · exact fun hc => by cases hc
  · exact fun _ _ _ hcurrent => by cases hcurrent
  · exact fun _ _ _ _ _ _ hcurrent => by cases hcurrent

/-- **The call that has read the row** stops, answers, or reads the row again. -/
theorem Coherent.resume (h : Coherent s) (hstep : step s (.resume n) = some s') : Coherent s' := by
  simp only [step] at hstep
  split at hstep
  · rename_i g d row hn
    split at hstep
    · cases hstep
      exact h.drop n
    · rename_i hcurrent
      have hg : s.generation = some g := not_not.mp hcurrent
      obtain ⟨hfollowing, hsub, hdelivered⟩ := h.current n ⟨g, .read d row⟩ hn hg
      have hregister := h.register hn hg
      have hread : (Phase.read d row).Knows s.deployments := h.knows n ⟨g, .read d row⟩ hn
      cases row with
      | none =>
        cases hstep
        refine { h.drop n with
          offline := ?_, subscription := ?_, current := ?_, shown := ?_ }
        · exact fun hoffline => ⟨(h.offline hoffline).1, hsub, rfl⟩
        · intro m e he
          rw [show s.subscription = some (.deployment m e) from he] at hsub
          cases hsub
        · intro m c hm hcurrent
          rcases Runs.update_eq_some hm with ⟨-, hnew⟩ | ⟨hne, hold⟩
          · cases hnew
          · exact absurd (h.single m n c ⟨g, .read d none⟩ hold hn hcurrent hg) hne
        · exact fun m e he => by cases he
      | some row =>
        obtain ⟨D, hD, hfinal⟩ := hread row rfl
        simp only [hD, bind_some] at hstep
        cases hlive : D.live with
        | some live =>
          rw [hlive] at hstep
          cases hstep
          refine hregister.answer hfollowing rfl hD ((h.kept d D hD).live live hlive) ?_
          exact fun hterminal => (hfinal hterminal).1
        | none =>
          rw [hlive] at hstep
          simp only at hstep
          split at hstep
          · cases hstep
            have hended : s.hasEnded d = true → D.stage = .ended := by
              intro he
              simpa [State.hasEnded, hD] using he
            have hplaced := hregister.place (n := n) (c := ⟨g, .rereading d row (s.hasEnded d)⟩)
              ?_ ?_ ?_ ?_
            · simpa [State.call, State.hasEnded] using hplaced
            · exact fun _ => ⟨g, hg, Nat.le_refl g⟩
            · exact fun _ => ⟨hfollowing, rfl, hdelivered⟩
            · exact ⟨D, hD, hended⟩
            · intro _ m c hm hcurrent
              rcases Runs.update_eq_some hm with ⟨-, hnew⟩ | ⟨-, hold⟩
              · cases hnew
              · exact h.single m n c ⟨g, .read d (some row)⟩ hold hn hcurrent hg
          · rename_i hterminal
            cases hstep
            obtain ⟨hstage, hlogs⟩ := hfinal (by simpa using hterminal)
            exact hregister.answer hfollowing rfl hD hlogs fun _ => hstage
  · cases hstep

/-- **The call that has read the row again** stops or answers. -/
theorem Coherent.resumeFresh (h : Coherent s) (ha : UpToDate s (.resumeFresh n))
    (hstep : step s (.resumeFresh n) = some s') : Coherent s' := by
  simp only [step] at hstep
  split at hstep
  · rename_i g d row ended fresh hn
    split at hstep
    · cases hstep
      exact h.drop n
    · rename_i hcurrent
      cases hstep
      have hg : s.generation = some g := not_not.mp hcurrent
      obtain ⟨hfollowing, hsub, -⟩ := h.current n _ hn hg
      obtain ⟨D, r, hD, rfl, hfinal, hended⟩ := h.knows n _ hn
      refine (h.drop n).answer hfollowing hsub hD ?_ fun hterminal => (hfinal hterminal).1
      cases ended with
      | true => exact (hended rfl).2
      | false =>
        simp only [UpToDate, hn] at ha
        exact ha hg D hD
  · cases hstep

variable {a : Action}

theorem Coherent.step (h : Coherent s) (ha : UpToDate s a) (hstep : step s a = some s') :
    Coherent s' := by
  cases a with
  | queue d =>
    simp only [Gateway.step] at hstep
    split at hstep
    · cases hstep
    · rename_i hnew
      cases hstep
      exact h.queue (by simpa using hnew)
  | log d a =>
    simp only [Gateway.step, bind_eq_some_iff, map_eq_some_iff] at hstep
    obtain ⟨D, hD, D', hD', rfl⟩ := hstep
    exact h.log hD (ha D hD) hD'
  | subscribe n d =>
    simp only [Gateway.step] at hstep
    split at hstep
    · cases hstep
    · rename_i hguard
      cases hstep
      obtain ⟨hconnected, -⟩ : s.connected = true ∧ s.calls n = none := by simpa using hguard
      exact h.start hconnected trivial ⟨rfl, rfl, rfl⟩
  | find n =>
    simp only [Gateway.step] at hstep
    split at hstep
    · rename_i g d hn
      cases hstep
      refine h.goOn hn id ?_
      intro r hr
      obtain ⟨D, hD, rfl⟩ := map_eq_some_iff.mp hr
      exact ⟨D, hD, (h.kept d D hD).complete⟩
    · cases hstep
  | resume n => exact h.resume hstep
  | findFresh n =>
    simp only [Gateway.step] at hstep
    split at hstep
    · rename_i g d row ended hn
      cases hstep
      refine h.goOn hn id ?_
      obtain ⟨D, hD, hended⟩ := h.knows n _ hn
      have hkept := h.kept d D hD
      refine ⟨D, D.row, hD, ?_, hkept.complete, ?_⟩
      · simp only [State.row, hD, map_some]
      · exact fun he => ⟨hended he, hkept.persisted (Or.inr (hended he))⟩
    · cases hstep
  | resumeFresh n => exact h.resumeFresh ha hstep
  | subscribeContainer n =>
    simp only [Gateway.step] at hstep
    split at hstep
    · cases hstep
    · rename_i hguard
      cases hstep
      obtain ⟨hconnected, -⟩ : s.connected = true ∧ s.calls n = none := by simpa using hguard
      exact h.start hconnected trivial rfl
  | stream n =>
    simp only [Gateway.step] at hstep
    split at hstep
    · rename_i g hn
      split at hstep
      · cases hstep
        exact h.drop n
      · rename_i hcurrent
        cases hstep
        have hg : s.generation = some g := not_not.mp hcurrent
        have hat := h.current n ⟨g, .container⟩ hn hg
        exact (h.goOn (q := .streaming) hn id trivial).replaced hat hg rfl
    · cases hstep
  | streamEnd n =>
    simp only [Gateway.step] at hstep
    split at hstep
    · rename_i g hn
      split at hstep
      · cases hstep
        exact h.drop n
      · rename_i hcurrent
        cases hstep
        have hg : s.generation = some g := not_not.mp hcurrent
        have hat := h.current n ⟨g, .streaming⟩ hn hg
        exact (h.drop n).replaced hat hg rfl
    · cases hstep
  | unsubscribe =>
    simp only [Gateway.step] at hstep
    split at hstep
    · cases hstep
    · rename_i hguard
      cases hstep
      exact h.unsubscribe (by simpa using hguard) none false fun _ _ hf => by cases hf
  | disconnect =>
    simp only [Gateway.step] at hstep
    split at hstep
    · cases hstep
    · rename_i hguard
      cases hstep
      exact h.disconnect (by simpa using hguard)

/-! ## A whole run -/

/-- A client that has not got its snapshot has a call that will answer. -/
def Pending (s : State) : Prop :=
  ∀ n d, s.following = some (n, d) → s.delivered = false →
    ∃ c, s.calls n = some c ∧ s.generation = some c.generation

/-- A call that finds another generation is not the one that is awaited. -/
theorem Pending.drop (h : Pending s) (hn : s.calls n = some c)
    (hstale : s.generation ≠ some c.generation) : Pending (s.call n none) := by
  intro m e hf hd
  obtain ⟨c', hm, hcurrent⟩ := h m e hf hd
  have hne : m ≠ n := by
    rintro rfl
    rw [hn] at hm
    cases hm
    exact hstale hcurrent
  exact ⟨c', (update_of_ne hne ..).trans hm, hcurrent⟩

theorem Pending.goOn (h : Pending s) (hn : s.calls n = some ⟨g, p⟩) :
    Pending (s.call n (some ⟨g, q⟩)) := by
  intro m e hf hd
  obtain ⟨c, hm, hcurrent⟩ := h m e hf hd
  by_cases hmn : m = n
  · subst hmn
    rw [hn] at hm
    cases hm
    exact ⟨⟨g, q⟩, update_self .., hcurrent⟩
  · exact ⟨c, (update_of_ne hmn ..).trans hm, hcurrent⟩

theorem pending_answer (s : State) (n d : Nat) (text : JsString) (status : DeploymentStatus) :
    Pending (s.answer n d text status) := by
  intro m e _ hd
  simp only [State.answer] at hd
  split at hd <;> cases hd

theorem Pending.step (h : Pending s) (hcoherent : Coherent s)
    (hstep : step s a = some s') : Pending s' := by
  cases a with
  | queue d =>
    simp only [Gateway.step] at hstep
    split at hstep
    · cases hstep
    · cases hstep
      exact h
  | log d a =>
    simp only [Gateway.step, bind_eq_some_iff, map_eq_some_iff] at hstep
    obtain ⟨D, -, D', -, rfl⟩ := hstep
    exact h
  | subscribe n d =>
    simp only [Gateway.step] at hstep
    split at hstep
    · cases hstep
    · cases hstep
      intro m e hf _
      cases hf
      exact ⟨_, update_self .., rfl⟩
  | find n =>
    simp only [Gateway.step] at hstep
    split at hstep
    · rename_i g d hn
      cases hstep
      exact h.goOn hn
    · cases hstep
  | resume n =>
    simp only [Gateway.step] at hstep
    split at hstep
    · rename_i g d row hn
      split at hstep
      · rename_i hstale
        cases hstep
        exact h.drop hn hstale
      · cases row with
        | none =>
          cases hstep
          exact fun m e hf => by cases hf
        | some row =>
          simp only at hstep
          split at hstep
          · cases hstep
            exact pending_answer _ _ _ _ _
          · split at hstep
            · cases hstep
              exact h.goOn (q := .rereading d row (s.hasEnded d)) hn
            · cases hstep
              exact pending_answer _ _ _ _ _
    · cases hstep
  | findFresh n =>
    simp only [Gateway.step] at hstep
    split at hstep
    · rename_i g d row ended hn
      cases hstep
      exact h.goOn hn
    · cases hstep
  | resumeFresh n =>
    simp only [Gateway.step] at hstep
    split at hstep
    · rename_i g d row ended fresh hn
      split at hstep
      · rename_i hstale
        cases hstep
        exact h.drop hn hstale
      · cases hstep
        exact pending_answer _ _ _ _ _
    · cases hstep
  | subscribeContainer n =>
    simp only [Gateway.step] at hstep
    split at hstep
    · cases hstep
    · cases hstep
      exact fun m e hf => by cases hf
  | stream n =>
    simp only [Gateway.step] at hstep
    split at hstep
    · rename_i g hn
      split at hstep
      · rename_i hstale
        cases hstep
        exact h.drop hn hstale
      · cases hstep
        exact h.goOn (q := .streaming) hn
    · cases hstep
  | streamEnd n =>
    simp only [Gateway.step] at hstep
    split at hstep
    · rename_i g hn
      split at hstep
      · rename_i hstale
        cases hstep
        exact h.drop hn hstale
      · rename_i hcurrent
        cases hstep
        have hnone : s.following = none := hcoherent.current n ⟨g, .streaming⟩ hn (not_not.mp hcurrent)
        intro m e hf
        rw [show s.following = some (m, e) from hf] at hnone
        cases hnone
    · cases hstep
  | unsubscribe =>
    simp only [Gateway.step] at hstep
    split at hstep
    · cases hstep
    · cases hstep
      exact fun m e hf => by cases hf
  | disconnect =>
    simp only [Gateway.step] at hstep
    split at hstep
    · cases hstep
    · cases hstep
      exact fun m e hf => by cases hf

theorem Coherent.follows (h : Coherent s) (hpending : Pending s) : Follows s where
  single := by
    rw [h.listeners]
    rcases s.subscription with - | (- | -)
    · exact Nat.zero_le 1
    · exact Nat.le_refl 1
    · exact Nat.zero_le 1
  noneLeft hgone := by
    rcases hgone with hoffline | hfollowing
    · exact h.idle (h.offline hoffline).2.2
    · exact h.idle hfollowing
  complete n d D hf hreturned hD hended := by
    have hdelivered : s.delivered = true := by
      by_contra hnot
      obtain ⟨c, hn, -⟩ := hpending n d hf (by simpa using hnot)
      rw [hreturned] at hn
      cases hn
    obtain ⟨E, hE, htext, -⟩ := h.shown n d hf hdelivered
    rw [hD] at hE
    cases hE
    exact htext

/-- **A client follows a deployment to its end**, in every run whose second reads are up to date. -/
theorem follows_to_end {as : List Action} (hmeets : Runs.Meets step UpToDate initial as)
    (hexec : Runs.exec step initial as = some s) : Follows s := by
  have hinitial : Coherent initial ∧ Pending initial := ⟨coherent_initial, fun n d hf => by cases hf⟩
  have hkeep : ∀ s a s', Coherent s ∧ Pending s → UpToDate s a → step s a = some s' →
      Coherent s' ∧ Pending s' := by
    rintro s a s' ⟨hcoherent, hpending⟩ ha hstep
    exact ⟨hcoherent.step ha hstep, hpending.step hcoherent hstep⟩
  obtain ⟨hcoherent, hpending⟩ := Runs.exec_invariant hkeep as initial s hinitial hmeets hexec
  exact hcoherent.follows hpending

/-- A client that comes while a deployment runs, with a chunk between its read and its snapshot. -/
def followed : List Action :=
  [.queue 1, .log 1 (.emit (js "a")), .subscribe 0 1, .find 0, .log 1 (.setStatus .building),
    .log 1 (.flush 0), .log 1 (.emit (js "b")), .resume 0, .log 1 (.emit (js "c")), .log 1 (.load 0),
    .log 1 (.compare 0), .log 1 (.land 0), .log 1 (.finish .success 1), .log 1 (.load 1),
    .log 1 (.compare 1), .log 1 (.land 1), .log 1 .announce]

theorem follows_to_end_followed : ∃ s, Runs.exec step initial followed = some s ∧ s.text 1 = js "abc" ∧
    Follows s := by
  have hmeets : Runs.Meets step UpToDate initial followed := by decide
  exact ⟨_, rfl, by decide, follows_to_end hmeets rfl⟩

/-- **A chunk is lost.**  The client subscribes to a queued deployment; a chunk is emitted between
the second read and its answer, and the answer replaces it by the empty log of the row. -/
theorem chunk_replaced : ∃ s D, Runs.exec step initial
    [.queue 1, .subscribe 0 1, .find 0, .resume 0, .findFresh 0, .log 1 (.emit (js "a")), .resumeFresh 0,
      .log 1 (.emit (js "b")), .log 1 (.finish .success 0), .log 1 (.load 0), .log 1 (.compare 0),
      .log 1 (.land 0), .log 1 .announce] = some s ∧
    s.deployments 1 = some D ∧ s.text 1 = js "b" ∧ D.emitted = js "ab" ∧ ¬ Follows s := by
  refine ⟨_, _, rfl, rfl, by decide, by decide, ?_⟩
  intro hfollows
  have htext := hfollows.complete 0 1 _ rfl rfl rfl rfl
  exact absurd htext (by decide)

end Aoox.DeploymentLogs.Gateway
