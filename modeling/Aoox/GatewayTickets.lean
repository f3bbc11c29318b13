import Aoox.JsString
import Aoox.Runs

/-! # Tickets of the shell gateways

A browser opens a shell with a ticket, a signed token that is good for one minute and for
one session.  A handshake reads the clock twice: `verify` accepts the ticket while the whole
seconds of the clock are below its `exp`, and `consumeTicket` forgets the used tickets whose
`exp`, in milliseconds, is not above the clock, before it looks the ticket up.

The two rules agree on every single reading.  But the second reading is later than the
first: a used ticket that is verified in the last millisecond of its life and consumed in the
next is forgotten in between, and opens a second session.  No ticket opens two sessions in a
run exactly when this does not happen (`once_iff`), and a ticket that has not been used is
accepted in any case.
-/
namespace Aoox.GatewayTickets
open JsString List Option

/-! ## The gateways -/

/-- The claims of a signed token.  Of a text no check tells a missing one from an empty. -/
structure Payload where
  (sub role scope jti containerId : JsString)
  serverId : Option JsString
  /-- In whole seconds. -/
  exp : Option Nat

/-- What a gateway asks of a ticket. -/
structure Gateway where
  scope : JsString
  /-- The claims that have to be there. -/
  (complete permits : Payload → Bool)

/-- Roles allowed to open a host shell. -/
def TERMINAL_ROLES : List JsString := [js "owner", js "admin"]

def TerminalGateway : Gateway where
  scope := js "terminal"
  complete payload := payload.jti ≠ []
  permits payload := TERMINAL_ROLES.contains payload.role

def ConsoleGateway : Gateway where
  scope := js "console"
  complete payload := payload.jti ≠ [] && payload.containerId ≠ []
  permits _ := true

/-- `jwtService.verify` of a token with a good signature. -/
def unexpired (payload : Payload) (now : Nat) : Bool :=
  match payload.exp with
  | none => true
  | some exp => now / 1000 < exp

/-- The ids of consumed tickets, each with the time it may be forgotten. -/
abbrev UsedTickets := List (JsString × Nat)

def purge (used : UsedTickets) (now : Nat) : UsedTickets := used.filter fun e => !(e.2 ≤ now)

/-- `exp ? exp * 1000 : now + 120_000`. -/
def expiresAt (exp : Option Nat) (now : Nat) : Nat :=
  match exp with
  | none | some 0 => now + 120000
  | some exp => exp * 1000

/-- Marks a ticket as used; `false` if it was consumed before. -/
def consumeTicket (used : UsedTickets) (jti : JsString) (exp : Option Nat) (now : Nat) :
    Bool × UsedTickets :=
  let used := purge used now
  if used.any fun e => e.1 = jti then (false, used)
  else (true, used ++ [(jti, expiresAt exp now)])

/-- What a client shows in `handshake.auth`. -/
inductive Presented (T : Type) where
  | missing
  /-- The signature does not verify. -/
  | forged
  | signed (token : T)

/-- The origin check; an empty `WEB_ORIGIN` allows any. -/
def originAllowed (allowedOrigin : JsString) (origin : Option JsString) : Bool :=
  allowedOrigin = [] || origin = some allowedOrigin

variable {T : Type}

/-- `authenticate`, which reads the clock at `verifiedAt` and at `consumedAt`: the payload,
or the error the client gets. -/
def authenticate (G : Gateway) (payloadOf : T → Payload) (allowedOrigin : JsString)
    (used : UsedTickets) (origin : Option JsString) (ticket : Presented T)
    (verifiedAt consumedAt : Nat) : Except JsString Payload × UsedTickets :=
  if !originAllowed allowedOrigin origin then (.error (js "origin not allowed"), used)
  else
    match ticket with
    | .missing => (.error (js "missing ticket"), used)
    | .forged => (.error (js "invalid ticket"), used)
    | .signed token =>
      let payload := payloadOf token
      if !unexpired payload verifiedAt then (.error (js "invalid ticket"), used)
      else if payload.scope ≠ G.scope || !G.complete payload then
        (.error (js "invalid ticket"), used)
      else if !G.permits payload then (.error (js "forbidden"), used)
      else
        let consumed := consumeTicket used payload.jti payload.exp consumedAt
        (if consumed.1 then .ok payload else .error (js "ticket already used"), consumed.2)

/-! ## Handshakes -/

/-- The tokens that are signed.  The tickets among them are signed with `expiresIn` and a
random id. -/
structure Tokens (G : Gateway) (T : Type) where
  payload : T → Payload
  expires : ∀ t, (payload t).scope = G.scope → (payload t).exp.isSome
  unique : ∀ t t', (payload t).scope = G.scope → (payload t').scope = G.scope →
    (payload t).jti = (payload t').jti → t = t'

structure Handshake (T : Type) where
  /-- From the last reading of the clock to `verify`. -/
  wait : Nat
  /-- From `verify` to `consumeTicket`. -/
  took : Nat
  origin : Option JsString
  ticket : Presented T
  /-- The shell can be opened. -/
  opens : Bool

structure State (T : Type) where
  /-- The last reading, in milliseconds. -/
  clock : Nat
  usedTickets : UsedTickets
  (accepted sessions : List T)

def initial (clock : Nat) : State T := ⟨clock, [], [], []⟩

def Handshake.verifiedAt (h : Handshake T) (s : State T) : Nat := s.clock + h.wait

def Handshake.consumedAt (h : Handshake T) (s : State T) : Nat := h.verifiedAt s + h.took

variable {G : Gateway} (K : Tokens G T) (allowedOrigin : JsString)

def answer (s : State T) (h : Handshake T) : Except JsString Payload × UsedTickets :=
  authenticate G K.payload allowedOrigin s.usedTickets h.origin h.ticket (h.verifiedAt s)
    (h.consumedAt s)

def newlyAccepted (s : State T) (h : Handshake T) : List T :=
  match h.ticket, (answer K allowedOrigin s h).1 with
  | .signed token, .ok _ => [token]
  | _, _ => []

def step (s : State T) (h : Handshake T) : Option (State T) :=
  let new := newlyAccepted K allowedOrigin s h
  some {
    clock := h.consumedAt s
    usedTickets := (answer K allowedOrigin s h).2
    accepted := new ++ s.accepted
    sessions := if h.opens then new ++ s.sessions else s.sessions }

/-- The origin, the signature, the scope and the role are good. -/
structure Admissible (s : State T) (h : Handshake T) (token : T) : Prop where
  ticket : h.ticket = .signed token
  origin : originAllowed allowedOrigin h.origin = true
  unexpired : unexpired (K.payload token) (h.verifiedAt s) = true
  scope : (K.payload token).scope = G.scope
  complete : G.complete (K.payload token) = true
  permits : G.permits (K.payload token) = true

def expiresAfter (payload : Payload) (now : Nat) : Bool :=
  payload.exp.any fun exp => now < exp * 1000

/-- A ticket that has opened a session and is verified once more does not expire before it is
looked up. -/
def InTime (s : State T) (h : Handshake T) : Prop :=
  ∀ token ∈ s.sessions, Admissible K allowedOrigin s h token → h.opens = true →
    expiresAfter (K.payload token) (h.consumedAt s) = true

/-! ## What a handshake does -/

variable {K allowedOrigin} {s s' : State T} {h : Handshake T} {token : T}

/-- The lookup of a ticket. -/
def lookUp (K : Tokens G T) (s : State T) (h : Handshake T) (token : T) : Bool × UsedTickets :=
  consumeTicket s.usedTickets (K.payload token).jti (K.payload token).exp (h.consumedAt s)

/-- **A handshake in two cases**: a ticket that passes the checks is looked up, and otherwise
there is an error and the used tickets stay as they are. -/
theorem answer_cases (K : Tokens G T) (allowedOrigin : JsString) (s : State T) (h : Handshake T) :
    (∃ token, Admissible K allowedOrigin s h token ∧
      answer K allowedOrigin s h =
        (if (lookUp K s h token).1 then .ok (K.payload token) else .error (js "ticket already used"),
          (lookUp K s h token).2)) ∨
      ∃ message, answer K allowedOrigin s h = (.error message, s.usedTickets) := by
  unfold answer authenticate
  split
  · exact Or.inr ⟨_, rfl⟩
  rename_i horigin
  split
  · exact Or.inr ⟨_, rfl⟩
  · exact Or.inr ⟨_, rfl⟩
  rename_i token hticket
  dsimp only
  split
  · exact Or.inr ⟨_, rfl⟩
  rename_i hunexpired
  split
  · exact Or.inr ⟨_, rfl⟩
  rename_i hcomplete
  split
  · exact Or.inr ⟨_, rfl⟩
  rename_i hpermits
  simp only [Bool.or_eq_true, decide_eq_true_eq, not_or, not_not, Bool.not_eq_true',
    Bool.not_eq_false] at horigin hunexpired hcomplete hpermits
  exact Or.inl ⟨token, ⟨hticket, horigin, hunexpired, hcomplete.1, hcomplete.2, hpermits⟩, rfl⟩

theorem answer_admissible (ht : Admissible K allowedOrigin s h token) :
    answer K allowedOrigin s h =
      (if (lookUp K s h token).1 then .ok (K.payload token) else .error (js "ticket already used"),
        (lookUp K s h token).2) := by
  obtain ⟨hticket, horigin, hunexpired, hscope, hcomplete, hpermits⟩ := ht
  simp only [answer, authenticate, hticket, horigin, hunexpired, hscope, hcomplete, hpermits,
    lookUp, Bool.not_true, Bool.false_eq_true, if_false, ne_eq, not_true_eq_false, decide_false,
    Bool.or_false]
  rfl

/-- An admissible ticket is accepted exactly when the lookup does not find it. -/
theorem newlyAccepted_admissible (ht : Admissible K allowedOrigin s h token) :
    newlyAccepted K allowedOrigin s h = if (lookUp K s h token).1 then [token] else [] := by
  rw [newlyAccepted, answer_admissible ht, ht.ticket]
  by_cases hfresh : (lookUp K s h token).1 = true
  · rw [if_pos hfresh, if_pos hfresh]
  · rw [if_neg hfresh, if_neg hfresh]

/-! ## The used tickets -/

variable {used : UsedTickets} {jti : JsString} {now : Nat}

theorem mem_purge {e : JsString × Nat} : e ∈ purge used now ↔ e ∈ used ∧ now < e.2 := by
  simp [purge]

/-- The lookup finds what is used and not forgotten. -/
theorem consumeTicket_fresh {exp : Option Nat} :
    (consumeTicket used jti exp now).1 = true ↔ ∀ e ∈ used, e.1 = jti → e.2 ≤ now := by
  by_cases hany : (purge used now).any (fun e => e.1 = jti) = true
  · obtain ⟨e, he, hjti⟩ := any_eq_true.mp hany
    obtain ⟨hmem, hlive⟩ := mem_purge.mp he
    rw [consumeTicket, if_pos hany]
    constructor
    · intro h
      cases h
    · intro h
      have hdead := h e hmem (by simpa using hjti)
      omega
  · rw [consumeTicket, if_neg hany]
    refine ⟨fun _ e hmem hjti => ?_, fun _ => rfl⟩
    by_contra hlive
    exact hany (any_eq_true.mpr ⟨e, mem_purge.mpr ⟨hmem, by omega⟩, by simpa using hjti⟩)

theorem mem_consumeTicket {exp : Option Nat} {e : JsString × Nat} :
    e ∈ (consumeTicket used jti exp now).2 ↔ (e ∈ used ∧ now < e.2) ∨
      ((consumeTicket used jti exp now).1 = true ∧ e = (jti, expiresAt exp now)) := by
  by_cases hany : (purge used now).any (fun e => e.1 = jti) = true
  · rw [consumeTicket, if_pos hany]
    simp [mem_purge]
  · rw [consumeTicket, if_neg hany]
    simp [mem_purge]

/-! ## Runs -/

/-- What is remembered of the accepted tickets. -/
structure Remembered (K : Tokens G T) (s : State T) : Prop where
  sessions : ∀ t ∈ s.sessions, t ∈ s.accepted
  scope : ∀ t ∈ s.accepted, (K.payload t).scope = G.scope
  /-- A ticket that can be forgotten has expired. -/
  used : ∀ t ∈ s.accepted, ∀ exp, (K.payload t).exp = some exp →
    ((K.payload t).jti, exp * 1000) ∈ s.usedTickets ∨ exp * 1000 ≤ s.clock
  /-- Nothing else counts as used, and nothing is remembered for longer. -/
  accepted : ∀ e ∈ s.usedTickets, ∃ t ∈ s.accepted,
    (K.payload t).jti = e.1 ∧ (K.payload t).exp.map (· * 1000) = some e.2

theorem remembered_initial (K : Tokens G T) (clock : Nat) : Remembered K (initial clock) :=
  ⟨fun _ h => by (cases h), fun _ h => by (cases h), fun _ h => by (cases h), fun _ h => by (cases h)⟩

/-- A ticket that verifies has an expiry that is not zero. -/
theorem Admissible.exp (ht : Admissible K allowedOrigin s h token) :
    ∃ exp, (K.payload token).exp = some exp ∧ h.verifiedAt s < exp * 1000 := by
  obtain ⟨exp, hexp⟩ := isSome_iff_exists.mp (K.expires token ht.scope)
  refine ⟨exp, hexp, ?_⟩
  have hunexpired := ht.unexpired
  rw [GatewayTickets.unexpired, hexp] at hunexpired
  have hlt : h.verifiedAt s / 1000 < exp := by simpa using hunexpired
  omega

theorem expiresAt_some {exp now : Nat} (h : exp ≠ 0) : expiresAt (some exp) now = exp * 1000 := by
  obtain ⟨n, rfl⟩ := Nat.exists_eq_succ_of_ne_zero h
  rfl

/-- **The lookup of an accepted ticket succeeds once it has expired**, and that of a ticket
that was not accepted always does. -/
theorem lookUp_fresh (hs : Remembered K s) (ht : Admissible K allowedOrigin s h token) :
    (lookUp K s h token).1 = true ↔
      token ∉ s.accepted ∨ expiresAfter (K.payload token) (h.consumedAt s) = false := by
  obtain ⟨exp, hexp, hverified⟩ := ht.exp
  rw [lookUp, consumeTicket_fresh, expiresAfter, hexp]
  simp only [any_some, decide_eq_false_iff_not, not_lt]
  constructor
  · intro hall
    by_cases hmem : token ∈ s.accepted
    · refine Or.inr ?_
      rcases hs.used token hmem exp hexp with hused | hpast
      · exact hall _ hused rfl
      · have hle : s.clock ≤ h.verifiedAt s := Nat.le_add_right _ _
        omega
    · exact Or.inl hmem
  · rintro hor e he hjti
    obtain ⟨t, htmem, hte, hexpt⟩ := hs.accepted e he
    obtain rfl := K.unique t token (hs.scope t htmem) ht.scope (hte.trans hjti)
    rw [hexp] at hexpt
    obtain hval : exp * 1000 = e.2 := some.inj hexpt
    rcases hor with hnot | hpast
    · exact absurd htmem hnot
    · omega

theorem clock_le_consumedAt (s : State T) (h : Handshake T) : s.clock ≤ h.consumedAt s := by
  rw [Handshake.consumedAt, Handshake.verifiedAt]
  omega

/-- The state after a handshake that presents a ticket. -/
theorem step_admissible (ht : Admissible K allowedOrigin s h token)
    (hstep : step K allowedOrigin s h = some s') :
    s' = {
      clock := h.consumedAt s
      usedTickets := (lookUp K s h token).2
      accepted := (if (lookUp K s h token).1 then [token] else []) ++ s.accepted
      sessions := if h.opens then (if (lookUp K s h token).1 then [token] else []) ++ s.sessions
        else s.sessions } := by
  obtain rfl := some.inj hstep
  rw [newlyAccepted_admissible ht, answer_admissible ht]

/-- The state after any other. -/
theorem step_refused {message : JsString}
    (hanswer : answer K allowedOrigin s h = (.error message, s.usedTickets))
    (hstep : step K allowedOrigin s h = some s') : s' = { s with clock := h.consumedAt s } := by
  have hnew : newlyAccepted K allowedOrigin s h = [] := by
    rw [newlyAccepted, hanswer]
    cases h.ticket <;> rfl
  obtain rfl := some.inj hstep
  rw [hnew, hanswer]
  simp

/-- **One handshake.** -/
theorem Remembered.step (hs : Remembered K s) (hstep : step K allowedOrigin s h = some s') :
    Remembered K s' := by
  have hclock := clock_le_consumedAt s h
  rcases answer_cases K allowedOrigin s h with ⟨token, ht, -⟩ | ⟨message, hanswer⟩
  · obtain ⟨exp, hexp, hverified⟩ := ht.exp
    have hexpires : expiresAt (K.payload token).exp (h.consumedAt s) = exp * 1000 := by
      rw [hexp]
      exact expiresAt_some (by omega)
    obtain rfl := step_admissible ht hstep
    -- the ticket is among the accepted ones, or the lookup has found it
    have haccepted : ∀ t, t ∈ (if (lookUp K s h token).1 then [token] else []) ++ s.accepted →
        (t = token ∧ (lookUp K s h token).1 = true) ∨ t ∈ s.accepted := by
      intro t
      by_cases hfresh : (lookUp K s h token).1 = true
      · simp [hfresh]
      · simp [hfresh]
    refine ⟨?_, ?_, ?_, ?_⟩
    · intro t hmem
      dsimp only at hmem
      split at hmem
      · rcases mem_append.mp hmem with hnew | hold
        · exact mem_append_left _ hnew
        · exact mem_append_right _ (hs.sessions t hold)
      · exact mem_append_right _ (hs.sessions t hmem)
    · intro t hmem
      rcases haccepted t hmem with ⟨rfl, -⟩ | hold
      · exact ht.scope
      · exact hs.scope t hold
    · intro t hmem expT hexpT
      dsimp only
      rcases haccepted t hmem with ⟨rfl, hfresh⟩ | hold
      · obtain rfl := some.inj (hexp.symm.trans hexpT)
        exact Or.inl (mem_consumeTicket.mpr (Or.inr ⟨hfresh, by rw [hexpires]⟩))
      · by_cases hlive : h.consumedAt s < expT * 1000
        · rcases hs.used t hold expT hexpT with hused | hpast
          · exact Or.inl (mem_consumeTicket.mpr (Or.inl ⟨hused, hlive⟩))
          · omega
        · exact Or.inr (by omega)
    · intro e he
      rcases mem_consumeTicket.mp he with ⟨hold, -⟩ | ⟨hfresh, rfl⟩
      · obtain ⟨t, hmem, hjti⟩ := hs.accepted e hold
        exact ⟨t, mem_append_right _ hmem, hjti⟩
      · refine ⟨token, ?_, rfl, ?_⟩
        · have hlook : (lookUp K s h token).1 = true := hfresh
          rw [if_pos hlook]
          exact mem_append_left _ (mem_singleton_self token)
        · rw [hexpires, hexp]
          rfl
  · obtain rfl := step_refused hanswer hstep
    refine ⟨hs.sessions, hs.scope, ?_, hs.accepted⟩
    intro t hmem exp hexp
    rcases hs.used t hmem exp hexp with hused | hpast
    · exact Or.inl hused
    · exact Or.inr (hpast.trans hclock)

/-- No ticket has opened two sessions. -/
def Once (s : State T) : Prop := s.sessions.Nodup

/-- **A handshake in time opens no second session.** -/
theorem Once.step (honce : Once s) (hs : Remembered K s) (hintime : InTime K allowedOrigin s h)
    (hstep : GatewayTickets.step K allowedOrigin s h = some s') : Once s' := by
  rcases answer_cases K allowedOrigin s h with ⟨token, ht, -⟩ | ⟨message, hanswer⟩
  · obtain rfl := step_admissible ht hstep
    show (if h.opens then _ else s.sessions).Nodup
    by_cases hopens : h.opens = true
    · rw [if_pos hopens]
      by_cases hfresh : (lookUp K s h token).1 = true
      · rw [if_pos hfresh]
        refine nodup_cons.mpr ⟨?_, honce⟩
        intro hmem
        rcases (lookUp_fresh hs ht).mp hfresh with hnot | hpast
        · exact hnot (hs.sessions token hmem)
        · rw [hintime token hmem ht hopens] at hpast
          cases hpast
      · rw [if_neg hfresh]
        exact honce
    · rw [if_neg hopens]
      exact honce
  · obtain rfl := step_refused hanswer hstep
    exact honce

/-- **A handshake that is too late does.** -/
theorem not_once_of_late (hs : Remembered K s) (hlate : ¬ InTime K allowedOrigin s h) :
    ∃ s', step K allowedOrigin s h = some s' ∧ ¬ Once s' := by
  obtain ⟨s', hstep⟩ : ∃ s', step K allowedOrigin s h = some s' := ⟨_, rfl⟩
  simp only [InTime, not_forall, Bool.not_eq_true] at hlate
  obtain ⟨token, hmem, ht, hopens, hpast⟩ := hlate
  refine ⟨s', hstep, ?_⟩
  have hfresh : (lookUp K s h token).1 = true := (lookUp_fresh hs ht).mpr (Or.inr hpast)
  obtain rfl := step_admissible ht hstep
  intro honce
  have hnodup : ([token] ++ s.sessions).Nodup := by simpa [Once, hopens, hfresh] using honce
  exact (nodup_cons.mp hnodup).1 hmem

theorem remembered_exec {clock : Nat} {handshakes : List (Handshake T)}
    (hexec : Runs.exec (step K allowedOrigin) (initial clock) handshakes = some s) : Remembered K s :=
  Runs.exec_keeps (fun _ _ _ hr hstep => Remembered.step hr hstep) handshakes _ _
    (remembered_initial K clock) hexec

/-- **No ticket opens two sessions exactly when every handshake is in time**, and a ticket that
verifies, passes the checks and was not accepted before is accepted whatever came before. -/
theorem once_iff (K : Tokens G T) (allowedOrigin : JsString) (clock : Nat)
    (handshakes : List (Handshake T)) :
    (Runs.Throughout (step K allowedOrigin) Once (initial clock) handshakes ↔
        Runs.Meets (step K allowedOrigin) (InTime K allowedOrigin) (initial clock) handshakes) ∧
      ∀ s, Runs.exec (step K allowedOrigin) (initial clock) handshakes = some s → ∀ h token,
        Admissible K allowedOrigin s h token → token ∉ s.accepted →
          (answer K allowedOrigin s h).1 = .ok (K.payload token) := by
  constructor
  · have hinv : Once (initial clock : State T) ∧ Remembered K (initial clock) :=
      ⟨List.nodup_nil, remembered_initial K clock⟩
    have hkeep : ∀ s h s', Once s ∧ Remembered K s → InTime K allowedOrigin s h →
        step K allowedOrigin s h = some s' → Once s' ∧ Remembered K s' := by
      rintro s h s' ⟨honce, hr⟩ hintime hstep
      exact ⟨honce.step hr hintime hstep, hr.step hstep⟩
    refine Runs.throughout_iff_meets hkeep (fun _ h => h.1) ?_ handshakes _ hinv
    rintro s h ⟨-, hr⟩ hlate
    exact not_once_of_late hr hlate
  · intro s hexec h token ht hnot
    rw [answer_admissible ht]
    exact if_pos ((lookUp_fresh (remembered_exec hexec) ht).mpr (Or.inl hnot))

/-! ## A ticket in its last millisecond -/

/-- One ticket, which both gateways would let in, good for a minute from time zero. -/
def oneTicket (G : Gateway) : Tokens G Unit where
  payload _ := {
    sub := js "u1"
    role := js "owner"
    scope := G.scope
    jti := js "5cbb62f0"
    containerId := js "4f8d2a"
    serverId := none
    exp := some 60 }
  expires _ _ := rfl
  unique _ _ _ _ _ := rfl

/-- The ticket is used at once, then verified at 59 999 ms and consumed at 60 000 ms. -/
def replay : List (Handshake Unit) :=
  [⟨0, 0, none, .signed (), true⟩, ⟨59999, 1, none, .signed (), true⟩]

theorem ticket_opens_two_sessions :
    (¬ ∀ handshakes,
        Runs.Throughout (step (oneTicket TerminalGateway) []) Once (initial 0) handshakes) ∧
      ¬ ∀ handshakes,
        Runs.Throughout (step (oneTicket ConsoleGateway) []) Once (initial 0) handshakes := by
  have htwice : ∀ G s, Runs.exec (step (oneTicket G) []) (initial 0) replay = some s →
      s.sessions = [(), ()] →
      ¬ ∀ handshakes, Runs.Throughout (step (oneTicket G) []) Once (initial 0) handshakes := by
    intro G s hexec hsessions h
    have honce := h replay replay s (List.prefix_refl _) hexec
    rw [Once, hsessions] at honce
    exact absurd honce (by decide)
  constructor
  · exact htwice TerminalGateway _ rfl (by decide)
  · exact htwice ConsoleGateway _ rfl (by decide)

end Aoox.GatewayTickets
