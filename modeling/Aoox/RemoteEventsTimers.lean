import Aoox.RemoteEvents

/-! # The timers of the event streams

The generation of a server's state moves on when its timer fires, not when its stream ends.
So a stream that reports its end twice, as one does whose connection breaks under the
response, sets two timers, and only the second is known to anyone: the first fires after a
`restart` too, and when both have fired, one behind the other, there are two streams.

A current stream that has ended waits for a timer (`Waits`).  So a second report does always
set a second timer, and the streams and timers of a run are as they should be exactly when
no current stream reports its end again (`quiet_iff_once`).
-/
open Option Function
namespace Aoox.RemoteEvents
variable {ServerId : Type} [DecidableEq ServerId] {s : State ServerId}

def Call.Ended (c : Call ServerId) : Prop :=
    ∃ aborted events, c.stage = .streaming true aborted events

/-- A current stream that has ended waits for its timer. -/
structure Waits (s : State ServerId) : Prop where
  below : ∀ {o t}, (s.states o).retryTimer = some t → t < s.next
  distinct : ∀ {o o' t}, (s.states o).retryTimer = some t → (s.states o').retryTimer = some t →
    o = o'
  pending : s.stopped = false → ∀ {c k}, s.calls c = some k → s.registered k.ticket → k.Ended →
    ∃ t x, (s.states k.ticket.state).retryTimer = some t ∧ s.timers t = some x

variable {s' : State ServerId}

theorem Waits.of (h : Waits s) (hnext : s.next ≤ s'.next)
    (hstates : ∀ {o t}, (s'.states o).retryTimer = some t → (s.states o).retryTimer = some t)
    (hpending : s'.stopped = false → ∀ {c k}, s'.calls c = some k → s'.registered k.ticket →
      k.Ended → ∃ t x, (s'.states k.ticket.state).retryTimer = some t ∧ s'.timers t = some x) :
    Waits s' :=
  ⟨fun ht => Nat.lt_of_lt_of_le (h.below (hstates ht)) hnext,
    fun ht ht' => h.distinct (hstates ht) (hstates ht'), hpending⟩

/-- The same, but for the calls of the object `o`. -/
structure WaitsBut (o : Nat) (s : State ServerId) : Prop where
  below : ∀ {o t}, (s.states o).retryTimer = some t → t < s.next
  distinct : ∀ {o o' t}, (s.states o).retryTimer = some t → (s.states o').retryTimer = some t →
    o = o'
  pending : s.stopped = false → ∀ {c k}, s.calls c = some k → s.registered k.ticket → k.Ended →
    k.ticket.state ≠ o → ∃ t x, (s.states k.ticket.state).retryTimer = some t ∧ s.timers t = some x

theorem Waits.but (h : Waits s) (o : Nat) : WaitsBut o s :=
  ⟨h.below, h.distinct, fun hrunning _ _ hk hreg hended _ => h.pending hrunning hk hreg hended⟩

variable {o : Nat} {serverId : ServerId}

/-- Connecting takes the ticket of every other call of the object. -/
theorem WaitsBut.connects (h : WaitsBut o s) (hinv : Inv s) (hs : Connects s s' serverId o)
    (hstopped : s'.stopped = s.stopped) : Waits s' := by
  have hstates : ∀ {o' t}, (s'.states o').retryTimer = some t →
      (s.states o').retryTimer = some t := by
    intro o' t ht
    by_cases ho : o' = o
    · rw [ho, hs.states.self] at ht
      rwa [ho]
    · rwa [hs.states.other ho] at ht
  refine ⟨?_, fun ht ht' => h.distinct (hstates ht) (hstates ht'), ?_⟩
  · intro o' t ht
    rw [hs.next]
    exact Nat.lt_succ_of_lt (h.below (hstates ht))
  · intro hrunning c k hk hreg hended
    rw [hs.calls] at hk
    rcases Runs.update_eq_some hk with ⟨rfl, heq⟩ | ⟨-, hk⟩
    · obtain rfl := some.inj heq
      obtain ⟨_, _, hstage⟩ := hended
      cases hstage
    · have ho : k.ticket.state ≠ o := by
        intro heq
        have hgeneration := hreg.2
        have hle := (hinv.below hk).2.2
        rw [heq, hs.states.self] at hgeneration
        rw [heq] at hle
        simp only at hgeneration
        omega
      rw [registered_congr (by rw [hs.streams]) (hs.states.other ho)] at hreg
      rw [hs.states.other ho, hs.timers]
      exact h.pending (hstopped ▸ hrunning) hk hreg hended ho

theorem WaitsBut.connect (h : WaitsBut o s) (hinv : Inv s) (serverId : ServerId) :
    Waits (s.connect serverId o) := by
  cases hstopped : s.stopped with
  | true =>
    rw [State.connect, if_pos hstopped]
    exact ⟨h.below, h.distinct, fun hrunning => absurd (hstopped.symm.trans hrunning) (by simp)⟩
  | false =>
    refine h.connects hinv (connects_connect hstopped serverId o) ?_
    rw [State.connect, if_neg (by simp [hstopped])]
    rfl

theorem Waits.start (h : Waits s) (hinv : Inv s)
    (hget : Assoc.get s.streams serverId = none) : Waits (s.start serverId) := by
  have hstates : ∀ {o}, o ≠ s.next → (s.add serverId).states o = s.states o :=
    fun ho => update_of_ne ho ..
  have hadd : Waits (s.add serverId) := by
    refine h.of (Nat.le_succ _) ?_ ?_
    · intro o t ht
      by_cases ho : o = s.next
      · rw [ho, (add_self serverId).2] at ht
        cases ht
      · rwa [hstates ho] at ht
    · intro hrunning c k hk hreg hended
      rw [hstates (Nat.ne_of_lt (hinv.below hk).2.1)]
      exact h.pending hrunning hk ((registered_add hinv hget hk).mp hreg) hended
  exact (hadd.but s.next).connect (hinv.add hget) serverId

theorem Waits.retires (h : Waits s) (hinv : Inv s) {state : StreamState} (hs : Retires s s' o state)
    (hstopped : s'.stopped = s.stopped)
    (htimer : ∀ t, state.retryTimer = some t → (s.states o).retryTimer = some t) : Waits s' := by
  refine h.of (Nat.le_of_eq hs.next.symm) ?_ ?_
  · intro o' t ht
    by_cases ho : o' = o
    · rw [ho, hs.states.self] at ht
      rw [ho]
      exact htimer t ht
    · rwa [hs.states.other ho] at ht
  · intro hrunning c k hk hreg hended
    rw [hs.calls] at hk
    obtain ⟨stage, hk, hstage⟩ := abort_eq_some hk
    obtain ⟨ho, hreg⟩ := (hs.registered (hinv.below hk).2.2).mp hreg
    have hended : (⟨k.ticket, stage⟩ : Call ServerId).Ended := by
      obtain ⟨aborted, events, heq⟩ := hended
      rcases hstage with ⟨rfl, -⟩ | hstage
      · exact ⟨aborted, events, heq⟩
      · rw [hstage] at heq
        cases stage with
        | connecting => cases heq
        | streaming ended aborted' events' =>
          cases heq
          exact ⟨aborted', events, rfl⟩
    obtain ⟨t, x, ht, hx⟩ := h.pending (hstopped ▸ hrunning) hk hreg hended
    have hne : (s.states o).retryTimer ≠ some t := fun heq => ho (h.distinct ht heq)
    refine ⟨t, x, ?_, ?_⟩
    · rw [hs.states.other ho]
      exact ht
    · rw [hs.timers, clearTimeout_of_ne hne]
      exact hx

theorem Waits.stop (h : Waits s) (hinv : Inv s) (serverId : ServerId) :
    Waits (s.stop serverId) := by
  cases hget : Assoc.get s.streams serverId with
  | none => rwa [State.stop, hget]
  | some o =>
    refine h.retires hinv (retires_stop hget) ?_ fun t ht => ht
    rw [State.stop, hget]

theorem Waits.restart (h : Waits s) (hinv : Inv s) (serverId : ServerId) :
    Waits (s.restart serverId) := by
  cases hget : Assoc.get s.streams serverId with
  | none => rwa [State.restart, hget]
  | some o =>
    cases hstopped : s.stopped with
    | true => simpa only [State.restart, hget, hstopped, if_true] using h
    | false =>
      obtain ⟨s', state, heq, hs, htimer, -, -, hstopped'⟩ := restart_eq hget hstopped
      rw [heq]
      have hretired := h.retires hinv hs (hstopped'.trans hstopped.symm)
        fun t ht => absurd (htimer.symm.trans ht) (by simp)
      exact (hretired.but o).connect (hinv.retires hs) serverId

theorem Waits.stopAll (ids : List ServerId) :
    ∀ {s : State ServerId}, Waits s → Inv s → Waits (s.stopAll ids) := by
  induction ids with
  | nil => exact fun h _ => h
  | cons id ids ih => exact fun h hinv => ih (h.stop hinv id) (hinv.stop id)

theorem Waits.startAll (ids : List ServerId) :
    ∀ {s : State ServerId}, Waits s → Inv s → Waits (s.startAll ids) := by
  induction ids with
  | nil => exact fun h _ => h
  | cons id ids ih =>
    intro s h hinv
    rw [State.startAll, List.foldl_cons]
    by_cases hhas : (Assoc.get s.streams id).isSome
    · rw [if_pos hhas]
      exact ih h hinv
    · rw [if_neg hhas]
      have hget : Assoc.get s.streams id = none := by simpa using hhas
      exact ih (h.start hinv hget) (hinv.start hget)

variable {t : Ticket ServerId}

/-- The new timer is the one the calls of the object wait for. -/
theorem WaitsBut.retries (h : WaitsBut t.state s) (hs : Retries s s' t) : Waits s' := by
  obtain ⟨backoffMs, hstates⟩ := hs.states
  obtain ⟨delay, htimers⟩ := hs.timers
  have hcases : ∀ {o u}, (s'.states o).retryTimer = some u →
      (o = t.state ∧ u = s.next) ∨ (o ≠ t.state ∧ (s.states o).retryTimer = some u) := by
    intro o u hu
    by_cases ho : o = t.state
    · rw [ho, hstates.self] at hu
      exact Or.inl ⟨ho, (some.inj hu).symm⟩
    · rw [hstates.other ho] at hu
      exact Or.inr ⟨ho, hu⟩
  refine ⟨?_, ?_, ?_⟩
  · intro o u hu
    rw [hs.next]
    rcases hcases hu with ⟨-, rfl⟩ | ⟨-, hu⟩
    · exact Nat.lt_succ_self _
    · exact Nat.lt_succ_of_lt (h.below hu)
  · intro o o' u hu hu'
    rcases hcases hu with ⟨rfl, rfl⟩ | ⟨-, hu⟩ <;> rcases hcases hu' with ⟨rfl, heq⟩ | ⟨-, hu'⟩
    · rfl
    · exact absurd (h.below hu') (by omega)
    · have hlt := h.below hu
      omega
    · exact h.distinct hu hu'
  · intro hrunning c k hk hreg hended
    rw [hs.calls] at hk
    rw [hstates.registered rfl hs.streams] at hreg
    by_cases ho : k.ticket.state = t.state
    · refine ⟨s.next, ⟨t.serverId, t.state, delay⟩, ?_, ?_⟩
      · rw [ho, hstates.self]
      · rw [htimers, update_self]
    · obtain ⟨u, x, hu, hx⟩ := h.pending (hs.stopped ▸ hrunning) hk hreg hended ho
      have hlt := h.below hu
      refine ⟨u, x, ?_, ?_⟩
      · rw [hstates.other ho]
        exact hu
      · rw [htimers, update_of_ne (by omega)]
        exact hx

theorem Waits.retry (h : Waits s) (t : Ticket ServerId) (now : Nat) : Waits (s.retry t now) := by
  by_cases hcurrent : s.current t = true
  · exact (h.but t.state).retries (retries_retry hcurrent now)
  · rwa [State.retry, if_neg hcurrent]

theorem Waits.modify (h : Waits s) (o : Nat) {f : StreamState → StreamState}
    (hf : ∀ state, (f state).generation = state.generation ∧
      (f state).retryTimer = state.retryTimer) : Waits (s.modify o f) := by
  have hstates : Replaces s (s.modify o f) o (f (s.states o)) := replaces_update rfl
  have htimer : ∀ o', ((s.modify o f).states o').retryTimer = (s.states o').retryTimer := by
    intro o'
    by_cases ho : o' = o
    · rw [ho, hstates.self, (hf _).2]
    · rw [hstates.other ho]
  refine h.of (Nat.le_refl _) ?_ ?_
  · intro o' t ht
    rwa [htimer] at ht
  · intro hrunning c k hk hreg hended
    rw [htimer]
    exact h.pending hrunning hk ((hstates.registered (hf _).1 rfl k.ticket).mp hreg) hended

/-- Calls that have not ended come or go. -/
theorem Waits.calls (h : Waits s) {calls : Nat → Option (Call ServerId)}
    (hcalls : ∀ {c k}, calls c = some k → k.Ended →
      ∃ d l, s.calls d = some l ∧ l.ticket = k.ticket ∧ l.Ended)
    (delivered : List (Nat × Nat)) : Waits { s with calls := calls, delivered := delivered } := by
  refine h.of (Nat.le_refl _) (fun ht => ht) ?_
  intro hrunning c k hk hreg hended
  obtain ⟨d, l, hl, heq, hended⟩ := hcalls hk hended
  rw [← heq]
  have hreg : s.registered k.ticket := hreg
  exact h.pending hrunning hl (heq ▸ hreg) hended

theorem Waits.giveUp (h : Waits s) (c : Nat) : Waits { s with calls := update s.calls c none } := by
  refine h.calls ?_ s.delivered
  intro d k hk hended
  rcases Runs.update_eq_some hk with ⟨-, habsurd⟩ | ⟨-, hk⟩
  · cases habsurd
  · exact ⟨d, k, hk, rfl, hended⟩

theorem Waits.connected (h : Waits s) (c : Nat) (t : Ticket ServerId) (now : Nat)
    (outcome : Outcome) : Waits (s.connected c t now outcome) := by
  cases outcome with
  | rejected => exact (h.giveUp c).retry t now
  | threw =>
    rw [State.connected]
    split
    · have htouch := (h.giveUp c).modify t.state (f := fun state =>
        { state with connectedAt := now }) fun _ => ⟨rfl, rfl⟩
      exact htouch.retry t now
    · exact h.giveUp c
  | opened =>
    rw [State.connected]
    split
    · have hopened : Waits { s with
          calls := update s.calls c (some ⟨t, .streaming false false 0⟩) } := by
        refine h.calls ?_ s.delivered
        intro d k hk hended
        rcases Runs.update_eq_some hk with ⟨-, heq⟩ | ⟨-, hk⟩
        · obtain rfl := some.inj heq
          obtain ⟨_, _, hstage⟩ := hended
          cases hstage
        · exact ⟨d, k, hk, rfl, hended⟩
      exact hopened.modify t.state (f := fun state =>
        { state with connectedAt := now, abort := some c }) fun _ => ⟨rfl, rfl⟩
    · exact h.giveUp c

variable {c events : Nat} {aborted : Bool}

theorem Waits.event (h : Waits s) {ended : Bool}
    (hc : s.calls c = some ⟨t, .streaming ended aborted events⟩) :
    Waits (s.event c t ended aborted events) := by
  have hcalls : ∀ delivered, Waits { s with
      calls := update s.calls c (some ⟨t, .streaming ended aborted (events + 1)⟩)
      delivered := delivered } := by
    refine h.calls ?_
    intro d k hk hended
    rcases Runs.update_eq_some hk with ⟨-, heq⟩ | ⟨-, hk⟩
    · obtain rfl := some.inj heq
      obtain ⟨_, _, hstage⟩ := hended
      cases hstage
      exact ⟨c, _, hc, rfl, aborted, events, rfl⟩
    · exact ⟨d, k, hk, rfl, hended⟩
  unfold State.event
  simp only
  split
  · exact (hcalls ((c, events) :: s.delivered)).modify t.state
      (f := fun state => { state with backoffMs := 1000 }) fun _ => ⟨rfl, rfl⟩
  · exact hcalls s.delivered

theorem Waits.ended (h : Waits s) {ended : Bool}
    (hc : s.calls c = some ⟨t, .streaming ended aborted events⟩) (now : Nat) :
    Waits (s.ended c t aborted events now) := by
  have hcase : ∀ {d k}, update s.calls c
      (some (⟨t, .streaming true aborted events⟩ : Call ServerId)) d = some k →
      k.ticket = t ∨ s.calls d = some k := by
    intro d k hk
    rcases Runs.update_eq_some hk with ⟨-, heq⟩ | ⟨-, hk⟩
    · obtain rfl := some.inj heq
      exact Or.inl rfl
    · exact Or.inr hk
  by_cases hcurrent : s.current t = true
  · have hbut : WaitsBut t.state (s.markEnded c t aborted events) := by
      refine ⟨h.below, h.distinct, ?_⟩
      intro hrunning d k hk hreg hended ho
      rcases hcase hk with rfl | hk
      · exact absurd rfl ho
      · exact h.pending hrunning hk hreg hended
    exact hbut.retries (retries_retry (s := s.markEnded c t aborted events) hcurrent now)
  · have hs : s.ended c t aborted events now = s.markEnded c t aborted events := if_neg hcurrent
    rw [hs]
    refine h.of (Nat.le_refl _) (fun ht => ht) ?_
    intro hrunning d k hk hreg hended
    rcases hcase hk with rfl | hk
    · have hreg : s.registered k.ticket := hreg
      exact absurd (by simp [State.current, hreg, show s.stopped = false from hrunning]) hcurrent
    · exact h.pending hrunning hk hreg hended

theorem Waits.fire (h : Waits s) (hinv : Inv s) {timer : Nat} {x : Timer ServerId}
    (ht : s.timers timer = some x) : Waits (s.fire timer x) := by
  obtain ⟨-, -, htimer, -⟩ := hinv.timers ht
  have hstates := replaces_expire (s := s) timer x
  have hle : ∀ {o t}, ((s.expire timer x).states o).retryTimer = some t →
      (s.states o).retryTimer = some t := by
    intro o t ho
    by_cases heq : o = x.state
    · rw [heq, hstates.self] at ho
      cases ho
    · rwa [hstates.other heq] at ho
  have hbut : WaitsBut x.state (s.expire timer x) := by
    refine ⟨fun ho => h.below (hle ho), fun ho ho' => h.distinct (hle ho) (hle ho'), ?_⟩
    intro hrunning c k hk hreg hended ho
    obtain ⟨t, y, hy, hpending⟩ :=
      h.pending hrunning hk ((hstates.registered rfl rfl k.ticket).mp hreg) hended
    have hne : t ≠ timer := by
      rintro rfl
      exact ho (h.distinct hy htimer)
    refine ⟨t, y, ?_, (update_of_ne hne ..).trans hpending⟩
    rw [hstates.other ho]
    exact hy
  exact hbut.connect (hinv.expire ht) x.serverId

variable {a : Action ServerId}

theorem waits_step (h : Waits s) (hinv : Inv s) (hstep : step s a = some s') : Waits s' := by
  cases a with
  | reconcile =>
    cases hstep
    split
    · exact h
    · exact h.of (Nat.le_refl _) (fun ht => ht) fun hrunning => h.pending hrunning
  | listed ids =>
    simp only [step] at hstep
    split at hstep
    · cases hstep
    · have hlisted : Waits { s with listing := s.listing - 1 } :=
        h.of (Nat.le_refl _) (fun ht => ht) fun hrunning => h.pending hrunning
      have hinv' : Inv { s with listing := s.listing - 1 } := hinv.congr rfl rfl rfl rfl rfl rfl
      cases ids with
      | none =>
        cases hstep
        exact hlisted
      | some ids =>
        cases hstep
        exact (hlisted.startAll ids hinv').stopAll _ (hinv'.startAll ids)
  | restart serverId =>
    cases hstep
    exact h.restart hinv serverId
  | shutdown =>
    cases hstep
    have hstopped : Waits { s with stopped := true } :=
      h.of (Nat.le_refl _) (fun ht => ht) fun hrunning => by cases hrunning
    exact hstopped.stopAll _ (hinv.congr rfl rfl rfl rfl rfl rfl)
  | timer timer =>
    obtain ⟨x, ht, rfl⟩ := map_eq_some_iff.mp hstep
    exact h.fire hinv ht
  | connected call outcome now =>
    simp only [step] at hstep
    split at hstep
    · cases hstep
      exact h.connected call _ now outcome
    · cases hstep
  | event call =>
    simp only [step] at hstep
    split at hstep
    · rename_i hc
      cases hstep
      exact h.event hc
    · cases hstep
  | ended call now =>
    simp only [step] at hstep
    split at hstep
    · rename_i hc
      cases hstep
      exact h.ended hc now
    · cases hstep

/-- A second timer is set next to the first. -/
theorem not_once_of_loud (h : Inv s) (hwaits : Waits s) (hloud : ¬ Quiet s a) :
    ∃ s', step s a = some s' ∧ ¬ Once s' := by
  cases a with
  | ended call now =>
    simp only [Quiet, not_forall] at hloud
    obtain ⟨t, aborted, events, hc, hcurrent⟩ := hloud
    have hcurrent : s.current t = true := by simpa using hcurrent
    have hrunning : s.stopped = false ∧ s.registered t := by
      simpa [State.current] using hcurrent
    obtain ⟨u, x, hu, hx⟩ := hwaits.pending hrunning.1 hc hrunning.2 ⟨aborted, events, rfl⟩
    refine ⟨s.ended call t aborted events now, by simp only [step, hc], ?_⟩
    intro honce
    obtain ⟨delay, htimers⟩ := (retries_retry (s := s.markEnded call t aborted events) hcurrent now).timers
    have htimers : (s.ended call t aborted events now).timers =
        update s.timers s.next (some ⟨t.serverId, t.state, delay⟩) := htimers
    have hlt := hwaits.below hu
    have hfirst : (s.ended call t aborted events now).timers u = some x := by
      rw [htimers, update_of_ne (by omega)]
      exact hx
    have hsecond : (s.ended call t aborted events now).timers s.next =
        some ⟨t.serverId, t.state, delay⟩ := by
      rw [htimers, update_self]
    have hserver : x.serverId = t.serverId := by
      obtain ⟨-, hget, hu', -⟩ := h.timers hx
      rw [hwaits.distinct hu' hu] at hget
      exact h.injective hget hrunning.2.1
    have heq := honce.timer hfirst hsecond hserver
    omega
  | reconcile => exact absurd trivial hloud
  | listed ids => exact absurd trivial hloud
  | restart serverId => exact absurd trivial hloud
  | shutdown => exact absurd trivial hloud
  | timer timer => exact absurd trivial hloud
  | connected call outcome now => exact absurd trivial hloud
  | event call => exact absurd trivial hloud

theorem inv_initial : Inv (initial : State ServerId) :=
  ⟨(fun hid => nomatch hid), (fun hid => nomatch hid), (fun hk => nomatch hk), (fun hk => nomatch hk),
    (fun hk => nomatch hk), (fun hk => nomatch hk), (fun ht => nomatch ht), List.nodup_nil,
    (fun hmem => nomatch hmem)⟩

theorem waits_initial : Waits (initial : State ServerId) :=
  ⟨(fun ht => nomatch ht), (fun ht => nomatch ht), fun _ _ _ hk => nomatch hk⟩

/-- **One stream, one timer**: in every run, whatever the order of its steps, every server has
at most one stream that is open and at most one pending timer, never both, and no event is
delivered twice, exactly when no stream reports its end again while it is the current one. -/
theorem quiet_iff_once (as : List (Action ServerId)) :
    Runs.Throughout step Once (initial : State ServerId) as ↔ Runs.Meets step Quiet initial as := by
  refine @Runs.throughout_iff_meets _ _ _ _ (fun s => Inv s ∧ Waits s) _ ?_ ?_ ?_ as initial
    ⟨inv_initial, waits_initial⟩
  · exact fun _ _ _ h hquiet hstep => ⟨inv_step h.1 hquiet hstep, waits_step h.2 h.1 hstep⟩
  · exact fun _ h => h.1.once
  · exact fun _ _ h hloud => not_once_of_loud h.1 h.2 hloud

/-! ## A connection that breaks -/

/-- The request and its response both fail. -/
def broken : List (Action Unit) :=
  [.reconcile, .listed (some [()]), .connected 1 .opened 1000, .ended 1 5000, .ended 1 5000]

/-- Both timers fire, and each of their streams is opened before the next one fires. -/
def reopened : List (Action Unit) :=
  broken ++ [.timer 2, .connected 4 .opened 6000, .timer 3, .connected 5 .opened 7000]

/-- **A connection that breaks is opened twice**: two timers are pending, and the first of the two
streams is in nobody's hands. -/
theorem broken_twice :
    (¬ ∀ as, Runs.Throughout step Once (initial : State Unit) as) ∧
      ∃ s : State Unit, Runs.exec step initial reopened = some s ∧
        (s.calls 4).map (·.stage) = some (.streaming false false 0) ∧
        (s.calls 5).map (·.stage) = some (.streaming false false 0) ∧
        (s.states 0).abort = some 5 := by
  refine ⟨?_, _, rfl, rfl, rfl, rfl⟩
  intro h
  have htimers := (h broken broken _ (List.prefix_refl _) rfl).timer (t := 2) (u := 3) rfl rfl rfl
  cases htimers

end Aoox.RemoteEvents
