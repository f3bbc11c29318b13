import Aoox.Runs

/-! # Switching maintenance mode

A request to switch maintenance on or off writes the flag of the application, and then its
job is queued: `refresh` reads the flag again and, if it is on, writes the page and the
router file and looks after the proxy; `deactivate` removes the router file and the page,
whatever the flag says.  When the job fails the request writes the flag back that it had
loaded, and nothing else.  Changes of domains queue a `refresh` too.

The jobs run one after another, but the flags are written outside the queue.  The router file
is in place exactly when the flag is on, once all requests have ended, if whoever changes the
file or writes a flag back leaves the two in line, or a request that will is still to come
(`in_line`).  A request that fails alone gives its flag back; its router file is as it was
exactly when it has not come to change it.
-/
open Option Function
namespace Aoox.MaintenanceSwitch

inductive Outcome where
  | ok
  | failed
  /-- The effect takes place and the call fails. -/
  | lost
  deriving DecidableEq

inductive Kind where
  /-- `SetMaintenanceService.execute`, with the flag it has loaded. -/
  | switch (enabled previous : Bool)
  /-- A request that changes domains. -/
  | domains

/-- What a request does next. -/
inductive Stage where
  | loaded
  /-- The flag or the domains are written. -/
  | written
  | queued
  /-- `refresh`: the page server, the pages, and the domains. -/
  | preparing
  | routers (domains : Nat)
  | proxying
  /-- `deactivate`, behind the router file. -/
  | removingPage
  /-- The job has thrown. -/
  | failed
  deriving DecidableEq

structure Request where
  kind : Kind
  stage : Stage

/-- The job of the request is `deactivate`. -/
def Kind.deactivates : Kind → Bool
  | switch enabled _ => !enabled
  | domains => false

/-- One application. -/
structure State where
  /-- `maintenanceEnabled`. -/
  flag : Bool
  /-- The router file, with the domains it was written for. -/
  file : Option Nat
  /-- The domains there are; every change gives new ones. -/
  domains : Nat
  /-- The requests whose jobs are queued; the first one's is running. -/
  queue : List Nat
  requests : Nat → Option Request

inductive Action where
  /-- A request has loaded the application, which is on a remote server or not. -/
  | switch (n : Nat) (enabled remote : Bool)
  | domains (n : Nat)
  | call (n : Nat) (o : Outcome)

namespace State
variable (s : State)

def put (n : Nat) (r : Option Request) : State :=
  { s with requests := Function.update s.requests n r }

def goTo (n : Nat) (r : Request) (stage : Stage) : State := s.put n (some { r with stage := stage })

/-- The job has ended and so does its request. -/
def jobDone (n : Nat) : State := { s.put n none with queue := s.queue.tail }

def jobFailed (n : Nat) (r : Request) : State := { s.goTo n r .failed with queue := s.queue.tail }

end State

/-- The next call of a request. -/
def call (s : State) (n : Nat) (r : Request) (o : Outcome) : Option State :=
  match r.stage with
  | .loaded =>
    match r.kind with
    | .switch enabled _ => some { s.goTo n r .written with flag := enabled }
    | .domains => some { s.goTo n r .written with domains := s.domains + 1 }
  | .written => some { s.goTo n r .queued with queue := s.queue ++ [n] }
  | .queued =>
    if s.queue.head? ≠ some n then none
    else if r.kind.deactivates then
      match o with
      | .ok => some { s.goTo n r .removingPage with file := none }
      | .failed => some (s.jobFailed n r)
      | .lost => some { s.jobFailed n r with file := none }
    else some (if s.flag then s.goTo n r .preparing else s.jobDone n)
  | .preparing => some (if o = .ok then s.goTo n r (.routers s.domains) else s.jobFailed n r)
  | .routers domains =>
    match o with
    | .ok => some { s.goTo n r .proxying with file := some domains }
    | .failed => some (s.jobFailed n r)
    | .lost => some { s.jobFailed n r with file := some domains }
  | .proxying | .removingPage => some (if o = .ok then s.jobDone n else s.jobFailed n r)
  | .failed =>
    match r.kind with
    | .switch _ previous => some { s.put n none with flag := previous }
    | .domains => some (s.put n none) -- it is logged

def step (s : State) : Action → Option State
  | .switch n enabled remote =>
    if (s.requests n).isSome then none
    else if enabled && remote then some s -- not supported
    else some (s.put n (some ⟨.switch enabled s.flag, .loaded⟩))
  | .domains n =>
    if (s.requests n).isSome then none else some (s.put n (some ⟨.domains, .loaded⟩))
  | .call n o => (s.requests n).bind fun r => call s n r o

def Idle (s : State) : Prop := (∀ n, s.requests n = none) ∧ s.queue = []

/-- The request is still going to bring the router file in line with a flag: it has written
it and its job has not come to the file, or it will write the flag back. -/
def Request.toCome (flag : Bool) (r : Request) : Bool :=
  match r.kind with
  | .domains => false
  | .switch enabled _ =>
    match r.stage with
    | .failed => true
    | .written | .queued | .preparing | .routers _ => enabled = flag
    | .loaded | .proxying | .removingPage => false

def OtherToCome (s : State) (n : Nat) (flag : Bool) : Prop :=
  ∃ m r, m ≠ n ∧ s.requests m = some r ∧ r.toCome flag = true

/-- A router file is removed while the flag is off, and written while it is on; a flag that is
written back is in line with the file; or another request is still to come. -/
def InLine (s : State) : Action → Prop
  | .call n o => ∀ r, s.requests n = some r →
      match r.stage with
      | .queued => r.kind.deactivates = true → o = .ok → s.flag = false ∨ OtherToCome s n true
      | .routers _ => o = .ok ∨ (o = .lost ∧ r.kind = .domains) →
          s.flag = true ∨ OtherToCome s n false
      | .failed => ∀ enabled previous, r.kind = .switch enabled previous →
          s.file.isSome = previous ∨ OtherToCome s n previous
      | _ => True
  | _ => True

/-! ## Requests that overlap -/

/-- The file agrees with the flag, or a request is to come. -/
def Agreed (s : State) : Prop :=
  s.file.isSome = s.flag ∨ ∃ n r, s.requests n = some r ∧ r.toCome s.flag = true

variable {s s' : State} {n : Nat} {r : Request}

variable {r' : Option Request}

/-- What another request is to do stays to be done. -/
theorem agreed_of_other (hrequests : s'.requests = (s.put n r').requests)
    (h : OtherToCome s n s'.flag) : Agreed s' := by
  obtain ⟨m, r, hne, hr, hcome⟩ := h
  refine Or.inr ⟨m, r, ?_, hcome⟩
  rw [hrequests]
  exact (update_of_ne hne _ _).trans hr

theorem agreed_of_own {r' : Request} (hrequests : s'.requests = (s.put n (some r')).requests)
    (hcome : r'.toCome s'.flag = true) : Agreed s' := by
  refine Or.inr ⟨n, r', ?_, hcome⟩
  rw [hrequests]
  exact update_self _ _ _

/-- A call that changes neither the flag nor whether there is a file. -/
theorem Agreed.keep (h : Agreed s) (hrequests : s'.requests = (s.put n r').requests)
    (hflag : s'.flag = s.flag) (hfile : s'.file = s.file)
    (hcome : ∀ r, s.requests n = some r → r.toCome s.flag = true →
      ∃ r₁, r' = some r₁ ∧ r₁.toCome s.flag = true) : Agreed s' := by
  rcases h with hagree | ⟨m, r, hr, hr'⟩
  · exact Or.inl (by rw [hfile, hflag, hagree])
  · by_cases hm : m = n
    · subst hm
      obtain ⟨r₁, rfl, hr₁⟩ := hcome r hr hr'
      exact agreed_of_own hrequests (hflag ▸ hr₁)
    · exact agreed_of_other hrequests ⟨m, r, hm, hr, hflag ▸ hr'⟩

theorem domains_toCome {flag : Bool} (h : r.kind = .domains) : r.toCome flag = false := by
  simp [Request.toCome, h]

/-- A request whose job has failed will write its flag back. -/
theorem failed_toCome {enabled previous flag : Bool} (h : r.kind = .switch enabled previous) :
    ({ r with stage := .failed } : Request).toCome flag = true := by
  simp [Request.toCome, h]

/-- **A job fails** and the file is as it was. -/
theorem Agreed.jobFailed (h : Agreed s) (hn : s.requests n = some r) : Agreed (s.jobFailed n r) := by
  cases hkind : r.kind with
  | switch enabled previous => exact agreed_of_own (n := n) rfl (failed_toCome hkind)
  | domains =>
    refine h.keep (n := n) rfl rfl rfl ?_
    intro r₁ hr₁ hcome
    obtain rfl := some.inj (hn.symm.trans hr₁)
    rw [domains_toCome hkind] at hcome
    cases hcome

theorem Agreed.jobDone (h : Agreed s) (hn : s.requests n = some r) (hcome : r.toCome s.flag = false) :
    Agreed (s.jobDone n) := by
  refine h.keep (n := n) rfl rfl rfl ?_
  intro r₁ hr₁ hcome₁
  obtain rfl := some.inj (hn.symm.trans hr₁)
  rw [hcome] at hcome₁
  cases hcome₁

variable {stage : Stage}

theorem Agreed.goTo (h : Agreed s) (hn : s.requests n = some r)
    (hrequests : s'.requests = (s.goTo n r stage).requests) (hflag : s'.flag = s.flag)
    (hfile : s'.file = s.file)
    (hstage : r.toCome s.flag = true → ({ r with stage := stage } : Request).toCome s.flag = true) :
    Agreed s' := by
  refine h.keep (n := n) hrequests hflag hfile ?_
  intro r₁ hr₁ hcome
  obtain rfl := some.inj (hn.symm.trans hr₁)
  exact ⟨_, rfl, hstage hcome⟩

/-- Stages in which a switch is on its way to the file. -/
theorem toCome_congr {flag : Bool}
    (hr : r.stage = .written ∨ r.stage = .queued ∨ r.stage = .preparing)
    (hstage : stage = .queued ∨ stage = .preparing ∨ ∃ domains, stage = .routers domains) :
    ({ r with stage := stage } : Request).toCome flag = r.toCome flag := by
  obtain ⟨kind, stage₀⟩ := r
  cases kind with
  | domains => rfl
  | switch enabled previous =>
    rcases hr with rfl | rfl | rfl <;> rcases hstage with rfl | rfl | ⟨_, rfl⟩ <;> rfl

variable {o : Outcome}

/-- **The router file is removed.** -/
theorem Agreed.removed (hdeactivates : r.kind.deactivates = true) (ho : o = .ok)
    (hline : r.kind.deactivates = true → o = .ok → s.flag = false ∨ OtherToCome s n true) :
    Agreed { s.goTo n r .removingPage with file := none } := by
  cases hflag : s.flag with
  | false => exact Or.inl hflag.symm
  | true =>
    rcases hline hdeactivates ho with hoff | hother
    · rw [hoff] at hflag
      cases hflag
    · refine agreed_of_other (s := s) (n := n) rfl ?_
      show OtherToCome s n s.flag
      rw [hflag]
      exact hother

/-- **The router file is written.** -/
theorem Agreed.placed {content : Nat} (hrequests : s'.requests = (s.put n r').requests)
    (hflag : s'.flag = s.flag) (hfile : s'.file = some content)
    (hline : s.flag = true ∨ OtherToCome s n false) : Agreed s' := by
  cases hon : s.flag with
  | true =>
    refine Or.inl ?_
    rw [hfile, hflag, hon]
    rfl
  | false =>
    rcases hline with hoff | hother
    · rw [hoff] at hon
      cases hon
    · refine agreed_of_other hrequests ?_
      rw [hflag, hon]
      exact hother

/-- **One call of a request.** -/
theorem Agreed.call (h : Agreed s) (hn : s.requests n = some r) (hline : InLine s (.call n o))
    (hcall : MaintenanceSwitch.call s n r o = some s') : Agreed s' := by
  have hline := hline r hn
  cases hstage : r.stage with
  | loaded =>
    simp only [MaintenanceSwitch.call, hstage] at hcall
    split at hcall
    · rename_i enabled previous hkind
      cases hcall
      exact agreed_of_own (n := n) rfl (by simp [Request.toCome, hkind])
    · rename_i hkind
      cases hcall
      refine h.goTo hn rfl rfl rfl ?_
      rw [domains_toCome hkind]
      exact fun h => by cases h
  | written =>
    simp only [MaintenanceSwitch.call, hstage] at hcall
    cases hcall
    exact h.goTo hn rfl rfl rfl fun hcome => by
      rwa [toCome_congr (Or.inl hstage) (Or.inl rfl)]
  | queued =>
    simp only [hstage] at hline
    simp only [MaintenanceSwitch.call, hstage] at hcall
    split at hcall
    · cases hcall
    · by_cases hdeactivates : r.kind.deactivates = true
      · rw [if_pos hdeactivates] at hcall
        obtain ⟨enabled, previous, hkind⟩ : ∃ enabled previous, r.kind = .switch enabled previous := by
          cases hkind : r.kind with
          | switch enabled previous => exact ⟨enabled, previous, rfl⟩
          | domains =>
            rw [hkind] at hdeactivates
            cases hdeactivates
        cases o with
        | ok =>
          cases hcall
          exact Agreed.removed hdeactivates rfl hline
        | failed =>
          cases hcall
          exact h.jobFailed hn
        | lost =>
          cases hcall
          exact agreed_of_own (s := s) (n := n) rfl (failed_toCome hkind)
      · rw [if_neg hdeactivates] at hcall
        obtain rfl := some.inj hcall
        by_cases hflag : s.flag = true
        · rw [if_pos hflag]
          exact h.goTo hn rfl rfl rfl fun hcome => by
            rwa [toCome_congr (Or.inr (Or.inl hstage)) (Or.inr (Or.inl rfl))]
        · -- the flag has been turned off since, so the request was not to come
          rw [if_neg hflag]
          refine h.jobDone hn ?_
          simp only [Bool.not_eq_true] at hflag hdeactivates
          rw [hflag]
          cases hkind : r.kind with
          | domains => exact domains_toCome hkind
          | switch enabled previous =>
            rw [hkind] at hdeactivates
            simp only [Kind.deactivates, Bool.not_eq_false'] at hdeactivates
            simp [Request.toCome, hkind, hstage, hdeactivates]
  | preparing =>
    simp only [MaintenanceSwitch.call, hstage] at hcall
    obtain rfl := some.inj hcall
    split
    · exact h.goTo hn rfl rfl rfl fun hcome => by
        rwa [toCome_congr (Or.inr (Or.inr hstage)) (Or.inr (Or.inr ⟨_, rfl⟩))]
    · exact h.jobFailed hn
  | routers content =>
    simp only [hstage] at hline
    simp only [MaintenanceSwitch.call, hstage] at hcall
    cases o with
    | ok =>
      cases hcall
      exact Agreed.placed (s := s) (n := n) rfl rfl rfl (hline (Or.inl rfl))
    | failed =>
      cases hcall
      exact h.jobFailed hn
    | lost =>
      cases hcall
      cases hkind : r.kind with
      | switch enabled previous => exact agreed_of_own (s := s) (n := n) rfl (failed_toCome hkind)
      | domains => exact Agreed.placed (s := s) (n := n) rfl rfl rfl (hline (Or.inr ⟨rfl, hkind⟩))
  | proxying | removingPage =>
    simp only [MaintenanceSwitch.call, hstage] at hcall
    obtain rfl := some.inj hcall
    split
    · refine h.jobDone hn ?_
      simp only [Request.toCome, hstage]
      split <;> rfl
    · exact h.jobFailed hn
  | failed =>
    simp only [hstage] at hline
    simp only [MaintenanceSwitch.call, hstage] at hcall
    split at hcall
    · rename_i enabled previous hkind
      cases hcall
      rcases hline enabled previous hkind with hagree | hother
      · exact Or.inl hagree
      · exact agreed_of_other (s := s) (n := n) rfl hother
    · rename_i hkind
      cases hcall
      refine h.keep (n := n) rfl rfl rfl ?_
      intro r₁ hr₁ hcome
      obtain rfl := some.inj (hn.symm.trans hr₁)
      rw [domains_toCome hkind] at hcome
      cases hcome

theorem Agreed.begin (h : Agreed s) (hn : s.requests n = none) (r' : Request) :
    Agreed (s.put n (some r')) := by
  refine h.keep (n := n) rfl rfl rfl ?_
  intro r hr
  rw [hn] at hr
  cases hr

/-- **One step.** -/
theorem Agreed.step (h : Agreed s) {a : Action} (hline : InLine s a)
    (hstep : MaintenanceSwitch.step s a = some s') : Agreed s' := by
  cases a with
  | call n o =>
    obtain ⟨r, hn, hcall⟩ := bind_eq_some_iff.mp hstep
    exact h.call hn hline hcall
  | domains n =>
    simp only [MaintenanceSwitch.step] at hstep
    split at hstep
    · cases hstep
    · rename_i hfree
      cases hstep
      exact h.begin (by simpa using hfree) _
  | switch n enabled remote =>
    simp only [MaintenanceSwitch.step] at hstep
    split at hstep
    · cases hstep
    · rename_i hfree
      split at hstep
      · cases hstep
        exact h
      · cases hstep
        exact h.begin (by simpa using hfree) _

theorem Agreed.idle (h : Agreed s) (hidle : Idle s) : s.file.isSome = s.flag := by
  rcases h with hagree | ⟨n, r, hr, -⟩
  · exact hagree
  · rw [hidle.1 n] at hr
    cases hr

/-- No request is under way, and the flag is in line with the file. -/
def initial (file : Option Nat) (domains : Nat) : State := ⟨file.isSome, file, domains, [], fun _ => none⟩

/-! ## A request that is alone -/

/-- A request that finds nothing under way, its calls and theirs alone, ends in an error: its
job has failed, and its last call writes the flag back. -/
def FailsAlone (s : State) (n : Nat) (enabled : Bool) (outcomes : List Outcome) (s' : State) : Prop :=
  Idle s ∧ ∃ t r o, Runs.exec step s (.switch n enabled false :: outcomes.map (.call n)) = some t ∧
    t.requests n = some r ∧ r.stage = .failed ∧ step t (.call n o) = some s'

/-- How the call that changes the router file ends, if the request comes to it. -/
def routerCall (enabled : Bool) (outcomes : List Outcome) : Option Outcome :=
  outcomes[if enabled then 4 else 2]?

/-- The router file is not changed, or to what it was. -/
def Untouched (s : State) (enabled : Bool) (outcomes : List Outcome) : Prop :=
  ∀ o, routerCall enabled outcomes = some o → o ≠ .failed →
    s.file = if enabled then some s.domains else none

/-- How far the request is, and what there is. -/
structure At (s : State) (n : Nat) (enabled : Bool) (stage : Stage) (flag : Bool) (file : Option Nat)
    (queue : List Nat) (t : State) : Prop where
  request : t.requests n = some ⟨.switch enabled s.flag, stage⟩
  flag : t.flag = flag
  file : t.file = file
  queue : t.queue = queue
  domains : t.domains = s.domains

section Alone
variable {t t' : State} {enabled flag : Bool} {file : Option Nat} {queue : List Nat}
  {outcomes : List Outcome}

theorem exec_ended (hn : t.requests n = none)
    (h : Runs.exec step t (outcomes.map (.call n)) = some t') : t'.requests n = none := by
  cases outcomes with
  | nil => exact some.inj h ▸ hn
  | cons o outcomes =>
    obtain ⟨t₁, hstep, -⟩ := Runs.exec_cons.mp h
    simp only [step, hn, bind_none] at hstep
    cases hstep

variable {r : Request}

theorem At.exec_failed (h : At s n enabled .failed flag file queue t)
    (hexec : Runs.exec step t (outcomes.map (.call n)) = some t') (hn : t'.requests n = some r) :
    outcomes = [] ∧ t' = t := by
  cases outcomes with
  | nil => exact ⟨rfl, (some.inj hexec).symm⟩
  | cons o outcomes =>
    obtain ⟨t₁, hstep, hrest⟩ := Runs.exec_cons.mp hexec
    simp only [step, h.request, bind_some, call] at hstep
    cases hstep
    have hended := exec_ended (n := n) (update_self n none t.requests) hrest
    rw [hended] at hn
    cases hn

/-- The next call of the request. -/
theorem At.exec_cons (h : At s n enabled stage flag file queue t)
    (hexec : Runs.exec step t ((o :: outcomes).map (.call n)) = some t') :
    ∃ t₁, call t n ⟨.switch enabled s.flag, stage⟩ o = some t₁ ∧
      Runs.exec step t₁ (outcomes.map (.call n)) = some t' := by
  obtain ⟨t₁, hstep, hrest⟩ := Runs.exec_cons.mp hexec
  refine ⟨t₁, ?_, hrest⟩
  simpa only [step, h.request, bind_some] using hstep

theorem At.restored (h : At s n enabled .failed flag file queue t)
    (hlast : step t (.call n o) = some s') : s'.flag = s.flag ∧ s'.file = file := by
  simp only [step, h.request, bind_some, call] at hlast
  cases hlast
  exact ⟨rfl, h.file⟩

/-- The request is not there yet. -/
theorem At.not_failed (h : At s n enabled stage flag file queue t) (hstage : stage ≠ .failed)
    (hexec : Runs.exec step t (([] : List Outcome).map (.call n)) = some t')
    (hn : t'.requests n = some r) (hfailed : r.stage = .failed) : False := by
  obtain rfl := some.inj hexec
  rw [h.request] at hn
  cases hn
  exact hstage hfailed

/-- The job fails, behind which nothing comes but the last call. -/
theorem At.jobFailed {f : Option Nat} (h : At s n enabled stage flag file queue t)
    (hexec : Runs.exec step { t.jobFailed n ⟨.switch enabled s.flag, stage⟩ with file := f }
      (outcomes.map (.call n)) = some t') (hn : t'.requests n = some r) :
    outcomes = [] ∧ At s n enabled .failed flag f queue.tail t' := by
  have hfailed : At s n enabled .failed flag f queue.tail
      { t.jobFailed n ⟨.switch enabled s.flag, stage⟩ with file := f } := by
    refine ⟨update_self _ _ _, h.flag, rfl, ?_, h.domains⟩
    show t.queue.tail = queue.tail
    rw [h.queue]
  obtain ⟨houtcomes, rfl⟩ := hfailed.exec_failed hexec hn
  exact ⟨houtcomes, hfailed⟩

/-- The last call of the job: the request is over, or its job fails. -/
theorem At.lastCall (h : At s n enabled stage flag file queue t)
    (hstage : stage = .proxying ∨ stage = .removingPage)
    (hexec : Runs.exec step t (outcomes.map (.call n)) = some t') (hn : t'.requests n = some r)
    (hfailed : r.stage = .failed) : At s n enabled .failed flag file queue.tail t' := by
  rcases outcomes with _ | ⟨o, outcomes⟩
  · exact (h.not_failed (by rcases hstage with rfl | rfl <;> decide) hexec hn hfailed).elim
  obtain ⟨t₁, hcall, hrest⟩ := h.exec_cons hexec
  have hends : (if o = .ok then t.jobDone n else t.jobFailed n ⟨.switch enabled s.flag, stage⟩) = t₁ := by
    rcases hstage with rfl | rfl <;> exact some.inj hcall
  by_cases ho : o = .ok
  · rw [if_pos ho] at hends
    subst hends
    have hended := exec_ended (n := n) (update_self n none t.requests) hrest
    rw [hended] at hn
    cases hn
  · rw [if_neg ho] at hends
    subst hends
    obtain ⟨-, hat⟩ := h.jobFailed (f := t.file) hrest hn
    rwa [h.file] at hat

/-- The first two calls. -/
theorem at_queued (hidle : Idle s)
    (hexec : Runs.exec step s (.switch n enabled false :: outcomes.map (.call n)) = some t)
    (hn : t.requests n = some r) (hfailed : r.stage = .failed) :
    ∃ o₁ o₂ rest u, outcomes = o₁ :: o₂ :: rest ∧ At s n enabled .queued enabled s.file [n] u ∧
      Runs.exec step u (rest.map (.call n)) = some t := by
  obtain ⟨t₀, hbegin, hexec⟩ := Runs.exec_cons.mp hexec
  have h₀ : At s n enabled .loaded s.flag s.file [] t₀ := by
    simp only [step, hidle.1 n, isSome_none, Bool.false_eq_true, if_false, Bool.and_false] at hbegin
    cases hbegin
    exact ⟨update_self _ _ _, rfl, rfl, hidle.2, rfl⟩
  rcases outcomes with _ | ⟨o₁, outcomes⟩
  · exact (h₀.not_failed (by decide) hexec hn hfailed).elim
  obtain ⟨t₁, hcall, hexec⟩ := h₀.exec_cons hexec
  have h₁ : At s n enabled .written enabled s.file [] t₁ := by
    cases hcall
    exact ⟨update_self _ _ _, rfl, h₀.file, h₀.queue, h₀.domains⟩
  rcases outcomes with _ | ⟨o₂, outcomes⟩
  · exact (h₁.not_failed (by decide) hexec hn hfailed).elim
  obtain ⟨t₂, hcall, hexec⟩ := h₁.exec_cons hexec
  refine ⟨o₁, o₂, outcomes, t₂, rfl, ?_, hexec⟩
  cases hcall
  refine ⟨update_self _ _ _, h₁.flag, h₁.file, ?_, h₁.domains⟩
  show t₁.queue ++ [n] = [n]
  rw [h₁.queue]
  rfl

/-- **A request to switch off.** -/
theorem off_alone (hidle : Idle s)
    (hexec : Runs.exec step s (.switch n false false :: outcomes.map (.call n)) = some t)
    (hn : t.requests n = some r) (hfailed : r.stage = .failed) :
    ∃ flag file queue, At s n false .failed flag file queue t ∧
      (file = s.file ↔ Untouched s false outcomes) := by
  obtain ⟨o₁, o₂, outcomes, u, rfl, hu, hrest⟩ := at_queued hidle hexec hn hfailed
  have hcalled : ∀ o rest, o ≠ .failed →
      (Untouched s false (o₁ :: o₂ :: o :: rest) ↔ none = s.file) := by
    intro o rest ho
    constructor
    · intro huntouched
      exact (huntouched o rfl ho).symm
    · intro hfile _ _ _
      exact hfile.symm
  rcases outcomes with _ | ⟨o₃, outcomes⟩
  · exact (hu.not_failed (by decide) hrest hn hfailed).elim
  obtain ⟨t₁, hcall, hrest₁⟩ := hu.exec_cons hrest
  simp only [call, hu.queue, List.head?_cons, ne_eq, not_true_eq_false, if_false, Kind.deactivates,
    Bool.not_false, if_true] at hcall
  cases o₃ with
  | failed =>
    cases hcall
    obtain ⟨rfl, h⟩ := hu.jobFailed (f := u.file) hrest₁ hn
    refine ⟨_, _, _, h, ?_⟩
    rw [hu.file]
    refine ⟨fun _ o ho hne => ?_, fun _ => rfl⟩
    obtain rfl : Outcome.failed = o := some.inj ho
    exact absurd rfl hne
  | lost =>
    cases hcall
    obtain ⟨rfl, h⟩ := hu.jobFailed hrest₁ hn
    exact ⟨_, _, _, h, (hcalled _ _ (by decide)).symm⟩
  | ok =>
    have h₁ : At s n false .removingPage false none [n] t₁ := by
      cases hcall
      exact ⟨update_self _ _ _, hu.flag, rfl, hu.queue, hu.domains⟩
    exact ⟨_, _, _, h₁.lastCall (.inr rfl) hrest₁ hn hfailed, (hcalled _ _ (by decide)).symm⟩

/-- **A request to switch on.** -/
theorem on_alone (hidle : Idle s)
    (hexec : Runs.exec step s (.switch n true false :: outcomes.map (.call n)) = some t)
    (hn : t.requests n = some r) (hfailed : r.stage = .failed) :
    ∃ flag file queue, At s n true .failed flag file queue t ∧
      (file = s.file ↔ Untouched s true outcomes) := by
  obtain ⟨o₁, o₂, outcomes, u, rfl, hu, hrest⟩ := at_queued hidle hexec hn hfailed
  have hcalled : ∀ o₃ o₄ o rest, o ≠ .failed →
      (Untouched s true (o₁ :: o₂ :: o₃ :: o₄ :: o :: rest) ↔ some s.domains = s.file) := by
    intro o₃ o₄ o rest ho
    constructor
    · intro huntouched
      exact (huntouched o rfl ho).symm
    · intro hfile _ _ _
      exact hfile.symm
  rcases outcomes with _ | ⟨o₃, outcomes⟩
  · exact (hu.not_failed (by decide) hrest hn hfailed).elim
  obtain ⟨t₁, hcall, hrest₁⟩ := hu.exec_cons hrest
  have h₁ : At s n true .preparing true s.file [n] t₁ := by
    simp only [call, hu.queue, List.head?_cons, ne_eq, not_true_eq_false, if_false, Kind.deactivates,
      Bool.not_true, Bool.false_eq_true, hu.flag, if_true] at hcall
    cases hcall
    exact ⟨update_self _ _ _, hu.flag, hu.file, hu.queue, hu.domains⟩
  rcases outcomes with _ | ⟨o₄, outcomes⟩
  · exact (h₁.not_failed (by decide) hrest₁ hn hfailed).elim
  obtain ⟨t₂, hcall, hrest₂⟩ := h₁.exec_cons hrest₁
  simp only [call] at hcall
  by_cases ho₄ : o₄ ≠ .ok
  · rw [if_neg ho₄] at hcall
    cases hcall
    obtain ⟨rfl, h⟩ := h₁.jobFailed (f := t₁.file) hrest₂ hn
    refine ⟨_, _, _, h, ?_⟩
    rw [h₁.file]
    refine ⟨fun _ o ho => ?_, fun _ => rfl⟩
    cases ho
  rw [if_pos (not_not.mp ho₄)] at hcall
  have h₂ : At s n true (.routers s.domains) true s.file [n] t₂ := by
    cases hcall
    refine ⟨?_, h₁.flag, h₁.file, h₁.queue, h₁.domains⟩
    rw [← h₁.domains]
    exact update_self _ _ _
  rcases outcomes with _ | ⟨o₅, outcomes⟩
  · exact (h₂.not_failed (fun h => by cases h) hrest₂ hn hfailed).elim
  obtain ⟨t₃, hcall, hrest₃⟩ := h₂.exec_cons hrest₂
  simp only [call] at hcall
  cases o₅ with
  | failed =>
    cases hcall
    obtain ⟨rfl, h⟩ := h₂.jobFailed (f := t₂.file) hrest₃ hn
    refine ⟨_, _, _, h, ?_⟩
    rw [h₂.file]
    refine ⟨fun _ o ho hne => ?_, fun _ => rfl⟩
    obtain rfl : Outcome.failed = o := some.inj ho
    exact absurd rfl hne
  | lost =>
    cases hcall
    obtain ⟨rfl, h⟩ := h₂.jobFailed hrest₃ hn
    exact ⟨_, _, _, h, (hcalled _ _ _ _ (by decide)).symm⟩
  | ok =>
    have h₃ : At s n true .proxying true (some s.domains) [n] t₃ := by
      cases hcall
      exact ⟨update_self _ _ _, h₂.flag, rfl, h₂.queue, h₂.domains⟩
    exact ⟨_, _, _, h₃.lastCall (.inl rfl) hrest₃ hn hfailed, (hcalled _ _ _ _ (by decide)).symm⟩

end Alone

/-- A request that fails alone gives its flag back, and leaves the router file as it was
exactly when it has not changed it. -/
theorem fails_alone {enabled : Bool} {outcomes : List Outcome} (h : FailsAlone s n enabled outcomes s') :
    s'.flag = s.flag ∧ (s'.file = s.file ↔ Untouched s enabled outcomes) := by
  obtain ⟨hidle, t, r, o, hexec, hn, hfailed, hlast⟩ := h
  obtain ⟨flag, file, queue, hat, huntouched⟩ : ∃ flag file queue,
      At s n enabled .failed flag file queue t ∧ (file = s.file ↔ Untouched s enabled outcomes) := by
    cases enabled with
    | true => exact on_alone hidle hexec hn hfailed
    | false => exact off_alone hidle hexec hn hfailed
  obtain ⟨hflag, hfile⟩ := hat.restored hlast
  exact ⟨hflag, hfile ▸ huntouched⟩

/-- **The flag and the router file.**  When all requests have ended they are in line, in every
run whose steps leave them so or leave it to another request; and a request that fails alone
leaves both as they were exactly when it has not changed the file. -/
theorem in_line (file : Option Nat) (domains : Nat) (as : List Action) :
    (Runs.Meets step InLine (initial file domains) as →
        ∀ s, Runs.exec step (initial file domains) as = some s → Idle s → s.file.isSome = s.flag) ∧
      ∀ s n enabled outcomes s', FailsAlone s n enabled outcomes s' →
        s'.flag = s.flag ∧ (s'.file = s.file ↔ Untouched s enabled outcomes) := by
  constructor
  · intro hmeets s hexec hidle
    have hinitial : Agreed (initial file domains) := Or.inl rfl
    have hagreed : Agreed s :=
      Runs.exec_invariant (fun _ _ _ h ha hstep => Agreed.step h ha hstep) as _ _ hinitial hmeets hexec
    exact hagreed.idle hidle
  · intro s n enabled outcomes s' h
    exact fails_alone h

/-! ## Two switches that overlap, and one that fails late -/

/-- Nothing but the request is under way. -/
def switchedOn : List Action := .switch 1 true false :: List.replicate 6 (.call 1 .ok)

theorem in_line_switchedOn :
    ∃ s, Runs.exec step (initial none 0) switchedOn = some s ∧ s.flag = true ∧ s.file.isSome = s.flag := by
  refine ⟨_, rfl, rfl, (in_line none 0 switchedOn).1 ?_ _ rfl ?_⟩
  · refine Runs.meets_cons rfl trivial ?_
    iterate 4
      refine Runs.meets_cons rfl ?_ ?_
      · rintro r ⟨⟩
        first | trivial | exact fun h => by cases h
    refine Runs.meets_cons rfl ?_ ?_
    · rintro r ⟨⟩
      exact fun _ => Or.inl rfl
    refine Runs.meets_cons rfl ?_ trivial
    rintro r ⟨⟩
    trivial
  · refine ⟨?_, rfl⟩
    intro n
    by_cases hn : n = 1
    · subst hn
      rfl
    · simp [State.jobDone, State.put, State.goTo, initial]

/-- The flag is turned off and on again, and the job of the first request is queued behind
that of the second. -/
def offBehindOn : List Action :=
  [.switch 1 false false, .switch 2 true false, .call 1 .ok] ++ List.replicate 6 (.call 2 .ok) ++
    List.replicate 3 (.call 1 .ok)

theorem flag_without_file :
    (¬ ∀ as s, Runs.exec step (initial (some 0) 0) as = some s →
        (∀ n o, Action.call n o ∈ as → o = .ok) → Idle s → s.file.isSome = s.flag) ∧
      ¬ ∀ s n enabled outcomes s', FailsAlone s n enabled outcomes s' →
        s'.flag = s.flag ∧ s'.file = s.file := by
  constructor
  · intro h
    have hagree := h offBehindOn _ rfl ?_ ?_
    · cases hagree
    · intro n o hmem
      simp only [offBehindOn, List.mem_append, List.mem_cons, List.mem_replicate, List.not_mem_nil,
        or_false] at hmem
      rcases hmem with (hmem | ⟨-, hmem⟩) | ⟨-, hmem⟩ <;> simp_all
    · refine ⟨?_, rfl⟩
      intro n
      by_cases h₁ : n = 1
      · subst h₁
        rfl
      · by_cases h₂ : n = 2
        · subst h₂
          rfl
        · simp [State.jobDone, State.put, State.goTo, Function.update_of_ne h₁, Function.update_of_ne h₂,
            initial]
  · intro h
    have hfails : FailsAlone (initial none 0) 1 true [.ok, .ok, .ok, .ok, .ok, .failed] _ :=
      ⟨⟨fun _ => rfl, rfl⟩, _, _, .ok, rfl, rfl, rfl, rfl⟩
    have hfile := (h _ _ _ _ _ hfails).2
    cases hfile

end Aoox.MaintenanceSwitch
