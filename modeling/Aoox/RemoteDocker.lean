import Aoox.JsString
import Aoox.Runs

/-! # The sessions of the servers

The Docker daemon of a server is reached through one SSH session.  `forServer` builds its
handle at the first call and keeps it, and `forget` drops it when the credentials have
changed.

Building a handle awaits the row of the server and fills the cache behind that, whatever has
happened in between.  Two calls at once both miss the cache, and the agent of the first to
fill it is replaced and never destroyed.  A call that has read its row before a `forget` puts
the old credentials back, and later calls are answered with them.  Nothing else goes wrong:
the next call would be answered as it should and every server has one agent at most, in every
state of a run, exactly when no call fills the cache too late (`lasting_iff_inTime`).
-/
open List Function
namespace Aoox.RemoteDocker
open JsString

/-! ## A handle -/

/-- The row of a server, as far as `resolve` uses it. -/
structure Server where
  host : JsString
  port : Nat
  username : JsString
  privateKeyEncrypted : Option JsString

structure SshTarget where
  host : JsString
  port : Nat
  (username privateKey : JsString)

/-- Where private keys come from; either may fail. -/
structure Keys where
  decryptSecret : JsString → Option JsString
  load : Option JsString

/-- `ServerService.resolve`, behind its query. -/
def resolve (K : Keys) (row : Option Server) : Option SshTarget :=
  row.bind fun server =>
    let privateKey :=
      match server.privateKeyEncrypted with
      | none | some [] => K.load
      | some text => K.decryptSecret text
    privateKey.map fun privateKey =>
      { host := server.host
        port := server.port
        username := server.username
        privateKey := privateKey }

structure DockerHandle where
  agent : Nat
  /-- What the agent connects with. -/
  target : SshTarget
  (label socketPath : JsString)
  /-- How many times the server had been forgotten when its row was read. -/
  readAt : Nat

def buildHandle (agent : Nat) (target : SshTarget) (readAt : Nat) : DockerHandle :=
  { agent := agent
    target := target
    label := js "ssh://" ++ target.username ++ js "@" ++ target.host ++ js ":" ++
      js (toString target.port)
    socketPath := js "/var/run/docker.sock"
    readAt := readAt }

/-! ## The service -/

variable {ServerId : Type}

/-- What a call of `forServer` waits for. -/
inductive Stage (ServerId : Type) where
  | resolving (serverId : ServerId)
  /-- The row was read; the rest of the call has not run yet. -/
  | resolved (serverId : ServerId) (target : SshTarget) (readAt : Nat)
  /-- Without a handle it is the local daemon. -/
  | returned (handle : Option DockerHandle)
  | failed

structure Call (ServerId : Type) where
  /-- How many times its server had been forgotten when the call began. -/
  begun : Nat
  stage : Stage ServerId

structure State (ServerId : Type) where
  servers : ServerId → Option Server
  handles : ServerId → Option DockerHandle
  /-- The agents that were created and not destroyed. -/
  agents : ServerId → List Nat
  created : Nat
  /-- How many calls of `forget` have returned. -/
  forgotten : ServerId → Nat
  calls : List (Call ServerId)

def initial (servers : ServerId → Option Server) : State ServerId where
  servers := servers
  handles _ := none
  agents _ := []
  created := 0
  forgotten _ := 0
  calls := []

inductive Action (ServerId : Type) where
  | edit (serverId : ServerId) (row : Option Server)
  | forServer (serverId : Option ServerId)
  /-- The database answers the query of a call. -/
  | read (call : Nat)
  /-- The call goes on with the answer. -/
  | build (call : Nat)
  /-- So many listeners connect again. -/
  | forget (serverId : ServerId) (listeners : Nat)

namespace State
variable [DecidableEq ServerId] (s : State ServerId)

/-- `forServer`, up to where it waits. -/
def forServer : Option ServerId → State ServerId
  | none => { s with calls := s.calls ++ [⟨0, .returned none⟩] }
  | some serverId =>
    let stage :=
      match s.handles serverId with
      | some cached => .returned (some cached)
      | none => .resolving serverId
    { s with calls := s.calls ++ [⟨s.forgotten serverId, stage⟩] }

/-- The rest of `forServer`. -/
def build (k begun : Nat) (serverId : ServerId) (target : SshTarget) (readAt : Nat) :
    State ServerId :=
  let handle := buildHandle s.created target readAt
  { s with
    handles := Function.update s.handles serverId (some handle)
    agents := Function.update s.agents serverId (s.agents serverId ++ [s.created])
    created := s.created + 1
    calls := s.calls.set k ⟨begun, .returned (some handle)⟩ }

/-- The first half of `forget`. -/
def drop (serverId : ServerId) : State ServerId :=
  match s.handles serverId with
  | none => s
  | some cached =>
    { s with
      handles := Function.update s.handles serverId none
      agents := Function.update s.agents serverId ((s.agents serverId).erase cached.agent) }

/-- Listeners that call `forServer`. -/
def reconnect (serverId : ServerId) : Nat → State ServerId → State ServerId
  | 0, s => s
  | n + 1, s => reconnect serverId n (s.forServer (some serverId))

def forget (serverId : ServerId) (listeners : Nat) : State ServerId :=
  let s := reconnect serverId listeners (s.drop serverId)
  { s with forgotten := Function.update s.forgotten serverId (s.forgotten serverId + 1) }

end State

variable [DecidableEq ServerId]

def step (K : Keys) (s : State ServerId) : Action ServerId → Option (State ServerId)
  | .edit serverId row => some { s with servers := Function.update s.servers serverId row }
  | .forServer serverId => some (s.forServer serverId)
  | .read k =>
    match s.calls[k]? with
    | some ⟨begun, .resolving serverId⟩ =>
      let stage :=
        match resolve K (s.servers serverId) with
        | none => .failed
        | some target => .resolved serverId target (s.forgotten serverId)
      some { s with calls := s.calls.set k ⟨begun, stage⟩ }
    | _ => none
  | .build k =>
    match s.calls[k]? with
    | some ⟨begun, .resolved serverId target readAt⟩ =>
      some (s.build k begun serverId target readAt)
    | _ => none
  | .forget serverId listeners => some (s.forget serverId listeners)

/-! ## What is asked of it -/

/-- A call that began behind a `forget` is answered with credentials that were read behind
it. -/
def Fresh (s : State ServerId) : Prop :=
  ∀ c ∈ s.calls, ∀ handle, c.stage = .returned (some handle) → c.begun ≤ handle.readAt

def OneAgent (s : State ServerId) : Prop := ∀ serverId, (s.agents serverId).length ≤ 1

/-- Both, now and behind another call. -/
def Lasting (s : State ServerId) : Prop :=
  (Fresh s ∧ OneAgent s) ∧ ∀ serverId, Fresh (s.forServer serverId)

/-- A call fills the cache while it is empty and its credentials are those of the time
behind the last `forget`. -/
def InTime (s : State ServerId) : Action ServerId → Prop
  | .build k => ∀ begun serverId target readAt,
      s.calls[k]? = some ⟨begun, .resolved serverId target readAt⟩ →
      s.handles serverId = none ∧ readAt = s.forgotten serverId
  | _ => True

structure Inv (s : State ServerId) : Prop where
  /-- The agents that are there are those of the cache. -/
  agents : ∀ serverId, s.agents serverId = ((s.handles serverId).map (·.agent)).toList
  handles : ∀ serverId handle, s.handles serverId = some handle →
    s.forgotten serverId ≤ handle.readAt
  fresh : Fresh s
  resolving : ∀ c ∈ s.calls, ∀ serverId, c.stage = .resolving serverId →
    c.begun ≤ s.forgotten serverId
  resolved : ∀ c ∈ s.calls, ∀ serverId target readAt,
    c.stage = .resolved serverId target readAt → c.begun ≤ readAt ∧ readAt ≤ s.forgotten serverId

/-! ## What a step keeps -/

variable {s : State ServerId}

omit [DecidableEq ServerId] in
theorem Inv.forServer (h : Inv s) (serverId : Option ServerId) : Inv (s.forServer serverId) := by
  cases serverId with
  | none =>
    refine ⟨h.agents, h.handles, ?_, ?_, ?_⟩ <;> intro c hc <;> rcases mem_append.mp hc with hc | hc
    · exact h.fresh c hc
    · simp [mem_singleton.mp hc]
    · exact h.resolving c hc
    · simp [mem_singleton.mp hc]
    · exact h.resolved c hc
    · simp [mem_singleton.mp hc]
  | some serverId =>
    refine ⟨h.agents, h.handles, ?_, ?_, ?_⟩ <;> intro c hc <;> rcases mem_append.mp hc with hc | hc
    · exact h.fresh c hc
    · rw [mem_singleton.mp hc]
      intro handle hstage
      cases hcached : s.handles serverId with
      | none => simp [hcached] at hstage
      | some cached =>
        have heq : cached = handle := by simpa [hcached] using hstage
        exact heq ▸ h.handles serverId cached hcached
    · exact h.resolving c hc
    · rw [mem_singleton.mp hc]
      intro serverId' hstage
      cases hcached : s.handles serverId with
      | none =>
        have heq : serverId = serverId' := by simpa [hcached] using hstage
        exact heq ▸ le_rfl
      | some cached => simp [hcached] at hstage
    · exact h.resolved c hc
    · rw [mem_singleton.mp hc]
      intro serverId' target readAt hstage
      cases hcached : s.handles serverId <;> simp [hcached] at hstage

omit [DecidableEq ServerId] in
theorem Inv.lasting (h : Inv s) : Lasting s := by
  refine ⟨⟨h.fresh, ?_⟩, fun serverId => (h.forServer serverId).fresh⟩
  intro serverId
  rw [h.agents serverId]
  cases s.handles serverId <;> simp

theorem Inv.drop (h : Inv s) (serverId : ServerId) :
    Inv (s.drop serverId) ∧ (s.drop serverId).handles serverId = none ∧
      (s.drop serverId).forgotten = s.forgotten := by
  unfold State.drop
  cases hcached : s.handles serverId with
  | none => exact ⟨h, hcached, rfl⟩
  | some cached =>
    refine ⟨⟨?_, ?_, h.fresh, h.resolving, h.resolved⟩, update_self .., rfl⟩
    · intro other
      by_cases hother : other = serverId
      · subst hother
        have hagents : s.agents other = [cached.agent] := by rw [h.agents, hcached]; rfl
        show update s.agents other _ other = _
        simp [hagents]
      · show update s.agents serverId _ other = _
        simp only [update_of_ne hother, h.agents]
    · intro other handle hhandle
      rcases Runs.update_eq_some hhandle with ⟨-, hnone⟩ | ⟨-, hhandle⟩
      · cases hnone
      · exact h.handles other handle hhandle

variable {serverId : ServerId}

omit [DecidableEq ServerId] in
theorem Inv.reconnect : ∀ (n : Nat) {s : State ServerId}, Inv s →
      Inv (State.reconnect serverId n s) ∧ (State.reconnect serverId n s).handles = s.handles ∧
        (State.reconnect serverId n s).forgotten = s.forgotten := by
  intro n
  induction n with
  | zero => exact fun h => ⟨h, rfl, rfl⟩
  | succ n ih => exact fun h => ih (h.forServer (some serverId))

theorem forgotten_forget (serverId : ServerId) (listeners : Nat) :
    (s.forget serverId listeners).forgotten =
      update (State.reconnect serverId listeners (s.drop serverId)).forgotten serverId
        ((State.reconnect serverId listeners (s.drop serverId)).forgotten serverId + 1) := rfl

theorem Inv.forget (h : Inv s) (serverId : ServerId) (listeners : Nat) :
    Inv (s.forget serverId listeners) := by
  obtain ⟨hdrop, hnone, -⟩ := h.drop serverId
  obtain ⟨hrest, hhandles, -⟩ := @Inv.reconnect _ serverId listeners _ hdrop
  have hmore : ∀ other, (State.reconnect serverId listeners (s.drop serverId)).forgotten other ≤
      (s.forget serverId listeners).forgotten other := by
    intro other
    rw [forgotten_forget]
    by_cases hother : other = serverId
    · subst hother
      rw [update_self]
      omega
    · rw [update_of_ne hother]
  refine ⟨hrest.agents, ?_, hrest.fresh, ?_, ?_⟩
  · intro other handle hhandle
    have hother : other ≠ serverId := by
      intro heq
      have habsurd :
          (State.reconnect serverId listeners (s.drop serverId)).handles other = some handle := hhandle
      rw [hhandles, heq, hnone] at habsurd
      cases habsurd
    rw [forgotten_forget, update_of_ne hother]
    exact hrest.handles other handle hhandle
  · intro c hc other hstage
    exact le_trans (hrest.resolving c hc other hstage) (hmore other)
  · intro c hc other target readAt hstage
    obtain ⟨hbegun, hread⟩ := hrest.resolved c hc other target readAt hstage
    exact ⟨hbegun, le_trans hread (hmore other)⟩

theorem Inv.build (h : Inv s) {k begun readAt : Nat} {target : SshTarget}
    (hcall : s.calls[k]? = some ⟨begun, .resolved serverId target readAt⟩)
    (hempty : s.handles serverId = none) (hread : readAt = s.forgotten serverId) :
    Inv (s.build k begun serverId target readAt) := by
  have hbegun : begun ≤ readAt := (h.resolved _ (mem_of_getElem? hcall) _ _ _ rfl).1
  refine ⟨?_, ?_, ?_, ?_, ?_⟩
  · intro other
    show update s.agents serverId _ other = ((update s.handles serverId _ other).map _).toList
    by_cases hother : other = serverId
    · subst hother
      simp [h.agents, hempty, buildHandle]
    · simp only [update_of_ne hother, h.agents]
  · intro other handle hhandle
    rcases Runs.update_eq_some hhandle with ⟨rfl, heq⟩ | ⟨-, hhandle⟩
    · obtain rfl := Option.some.inj heq
      exact hread.ge
    · exact h.handles other handle hhandle
  · intro c hc handle hstage
    rcases mem_or_eq_of_mem_set hc with hc | rfl
    · exact h.fresh c hc handle hstage
    · cases hstage
      exact hbegun
  · intro c hc other hstage
    rcases mem_or_eq_of_mem_set hc with hc | rfl
    · exact h.resolving c hc other hstage
    · cases hstage
  · intro c hc other _ _ hstage
    rcases mem_or_eq_of_mem_set hc with hc | rfl
    · exact h.resolved c hc other _ _ hstage
    · cases hstage

variable {K : Keys} {s' : State ServerId}

theorem Inv.read (h : Inv s) {k : Nat} (hstep : step K s (.read k) = some s') : Inv s' := by
  simp only [step] at hstep
  split at hstep
  · rename_i begun serverId hcall
    have hbegun : begun ≤ s.forgotten serverId := h.resolving _ (mem_of_getElem? hcall) _ rfl
    cases hstep
    refine ⟨h.agents, h.handles, ?_, ?_, ?_⟩
    · intro c hc handle hstage
      rcases mem_or_eq_of_mem_set hc with hc | rfl
      · exact h.fresh c hc handle hstage
      · cases hresolve : resolve K (s.servers serverId) <;> simp [hresolve] at hstage
    · intro c hc other hstage
      rcases mem_or_eq_of_mem_set hc with hc | rfl
      · exact h.resolving c hc other hstage
      · cases hresolve : resolve K (s.servers serverId) <;> simp [hresolve] at hstage
    · intro c hc other target readAt hstage
      rcases mem_or_eq_of_mem_set hc with hc | rfl
      · exact h.resolved c hc other target readAt hstage
      · cases hresolve : resolve K (s.servers serverId) with
        | none => simp [hresolve] at hstage
        | some target' =>
          simp only [hresolve, Stage.resolved.injEq] at hstage
          obtain ⟨rfl, -, rfl⟩ := hstage
          exact ⟨hbegun, le_rfl⟩
  · cases hstep

variable {a : Action ServerId}

theorem inv_step (h : Inv s) (htime : InTime s a) (hstep : step K s a = some s') : Inv s' := by
  cases a with
  | edit serverId row =>
    cases hstep
    exact ⟨h.agents, h.handles, h.fresh, h.resolving, h.resolved⟩
  | forServer serverId =>
    cases hstep
    exact h.forServer serverId
  | read k => exact h.read hstep
  | build k =>
    simp only [step] at hstep
    split at hstep
    · rename_i begun serverId target readAt hcall
      obtain ⟨hempty, hread⟩ := htime begun serverId target readAt hcall
      cases hstep
      exact h.build hcall hempty hread
    · cases hstep
  | forget serverId listeners =>
    cases hstep
    exact h.forget serverId listeners

/-! ## Too late -/

/-- A call that finds a handle in the cache leaves two agents, one that was overtaken by a
`forget` answers the next call with what it read before. -/
theorem not_lasting_of_late (h : Inv s) (hlate : ¬ InTime s a) :
    ∃ s', step K s a = some s' ∧ ¬ Lasting s' := by
  cases a with
  | build k =>
    simp only [InTime, not_forall] at hlate
    obtain ⟨begun, serverId, target, readAt, hcall, hlate⟩ := hlate
    refine ⟨s.build k begun serverId target readAt, by simp only [step, hcall], ?_⟩
    rintro ⟨⟨-, hone⟩, hnext⟩
    cases hcached : s.handles serverId with
    | some cached =>
      have hlength := hone serverId
      simp [State.build, h.agents, hcached] at hlength
    | none =>
      have hle := (h.resolved _ (mem_of_getElem? hcall) _ _ _ rfl).2
      have hread : readAt ≠ s.forgotten serverId := fun heq => hlate ⟨hcached, heq⟩
      have hbegun := hnext (some serverId) ⟨s.forgotten serverId,
        .returned (some (buildHandle s.created target readAt))⟩
        (by simp [State.forServer, State.build]) _ rfl
      simp only [buildHandle] at hbegun
      omega
  | edit serverId row => exact absurd trivial hlate
  | forServer serverId => exact absurd trivial hlate
  | read k => exact absurd trivial hlate
  | forget serverId listeners => exact absurd trivial hlate

omit [DecidableEq ServerId] in
/-- No server has been used yet. -/
theorem inv_initial (servers : ServerId → Option Server) : Inv (initial servers) :=
  ⟨fun _ => rfl, (fun _ _ h => nomatch h), (fun _ h => nomatch h), (fun _ h => nomatch h),
    (fun _ h => nomatch h)⟩

/-- **The session of a server**: for any interleaving of calls, changes of the rows and drops of
sessions, every answer is fresh, would be fresh to one more call, and no server has two agents,
exactly when no call fills the cache too late. -/
theorem lasting_iff_inTime (K : Keys) (servers : ServerId → Option Server)
    (as : List (Action ServerId)) :
    Runs.Throughout (step K) Lasting (initial servers) as ↔
      Runs.Meets (step K) InTime (initial servers) as :=
  Runs.throughout_iff_meets (fun _ _ _ => inv_step) (fun _ => Inv.lasting)
    (fun _ _ => not_lasting_of_late) as _ (inv_initial servers)

/-! ## At the start of the API -/

/-- The platform's key opens every server. -/
def platformKeys : Keys where
  decryptSecret _ := none
  load := some (js "key")

def build01 : Server where
  host := js "10.0.0.7"
  port := 22
  username := js "deploy"
  privateKeyEncrypted := none

/-- The event streams and the monitoring both ask for the handle of a server when the API
starts. -/
def twoCalls : List (Action Unit) :=
  [.forServer (some ()), .forServer (some ()), .read 0, .build 0, .read 1, .build 1]

/-- The user of a server is edited while its handle is built, and the session is forgotten. -/
def lateBuild : List (Action Unit) :=
  [.forServer (some ()), .read 0, .edit () (some { build01 with username := js "root" }),
    .forget () 0, .build 0, .forServer (some ())]

/-- **Both go wrong**: a server has two agents, and a call behind `forget` is answered with the
user of before. -/
theorem agents_doubled_and_stale :
    (¬ ∀ as, Runs.Throughout (step platformKeys) OneAgent (initial fun _ : Unit => build01) as) ∧
      ¬ ∀ as, Runs.Throughout (step platformKeys) Fresh (initial fun _ : Unit => build01) as := by
  constructor
  · intro h
    have hone := h twoCalls twoCalls _ (List.prefix_refl _) rfl ()
    exact absurd hone (by decide)
  · intro h
    have hfresh := h lateBuild lateBuild _ (List.prefix_refl _) rfl _
      (List.mem_cons_of_mem _ (List.mem_cons_self ..)) _ rfl
    exact absurd hfresh (by decide)

end Aoox.RemoteDocker
