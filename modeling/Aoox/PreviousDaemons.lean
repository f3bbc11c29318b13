import Aoox.JsString
import Aoox.Runs

/-! # Daemons an application was moved away from

A move changes `serverId` only; the containers stay on the old daemon until a
deployment has put the application on the new one.  The column `previousDaemons`
remembers where they may still be.  A settings request reads the list again
before it saves, adds the daemon it leaves and drops the one it goes to
(`recordMove`); a deployment that came up sweeps the daemons on the list one by
one and writes back what it could not clean (`retirePreviousDaemons`).

Both write a list they read earlier.  The sweep looks for another move once, when
it starts, and none of its removals and not its write do so again, so a move that
comes in between is forgotten (`move_forgotten`), and its target may be swept.  As
long as no move is saved while a request or a sweep holds an older state, and
containers are created on the current server only, the list covers every daemon
with containers (`daemons_recorded`).
-/
namespace Aoox.PreviousDaemons

open JsString Option Function

/-- `null` is the host aoox runs on. -/
abbrev ServerId := Option JsString

def HOST_DAEMON : JsString := js "host"

/-- `serverId || HOST_DAEMON`. -/
def daemonKey (serverId : ServerId) : JsString :=
  if serverId.getD [] = [] then HOST_DAEMON else serverId.getD []

/-- `Set.add`. -/
def addKey (set : List JsString) (key : JsString) : List JsString :=
  if key ∈ set then set else set ++ [key]

/-- The pending list after the application moved `src` -> `dst`. -/
def recordMove (pending : List JsString) (src dst : ServerId) : List JsString :=
  (addKey pending.eraseDups (daemonKey src)).filter (· ≠ daemonKey dst)

def pendingDaemons (pending : List JsString) (current : ServerId) : List JsString :=
  pending.filter (· ≠ daemonKey current)

variable {d : JsString}

theorem mem_addKey {set : List JsString}
    {key : JsString} : d ∈ addKey set key ↔ d ∈ set ∨ d = key := by
  unfold addKey
  split
  · next hkey =>
    refine ⟨Or.inl, ?_⟩
    rintro (h | rfl)
    · exact h
    · exact hkey
  · simp

theorem mem_recordMove {pending : List JsString} {src dst : ServerId} :
    d ∈ recordMove pending src dst ↔ (d ∈ pending ∨ d = daemonKey src) ∧ d ≠ daemonKey dst := by
  simp [recordMove, mem_addKey, List.mem_eraseDups]

/-- A settings request; `list` is what it will save, once it has read it. -/
structure Patch where
  (before target : ServerId)
  /-- How many moves had been saved when it was loaded. -/
  seen : Nat
  list : Option (List JsString)

structure Sweep where
  fresh : List JsString
  seen : Nat
  (todo done : List JsString)

/-- A deployment with the copy of the application it was handed. -/
structure Run where
  server : ServerId
  sweep : Option Sweep

structure State where
  serverId : ServerId
  previousDaemons : List JsString
  servers : JsString → Bool
  /-- The daemons that may hold a container of the application. -/
  holds : JsString → Bool
  moves : Nat
  /-- Every removal: the daemon swept, and the one the application was on. -/
  swept : List (JsString × JsString)
  patches : Nat → Option Patch
  runs : Nat → Option Run

/-- What comes of sweeping one daemon. -/
inductive Found where
  | removed
  /-- The server row is gone. -/
  | gone
  | failed
  deriving Repr

inductive Action where
  /-- A request is loaded; `none` leaves the server out. -/
  | patch (p : Nat) (server : Option ServerId)
  | refresh (p : Nat)
  | save (p : Nat)
  | refuse (p : Nat)
  | deploy (p : Nat)
  | create (p : Nat)
  | sweep (p : Nat)
  | clean (p : Nat) (found : Found)
  | retire (p : Nat)
  | finish (p : Nat)
  | deleteServer (d : JsString)

def initial (serverId : ServerId) (servers : JsString → Bool) : State :=
  { serverId := serverId
    previousDaemons := []
    servers := servers
    holds := fun _ => false
    moves := 0
    swept := []
    patches := fun _ => none
    runs := fun _ => none }

/-- The daemon can be reached through its row; the host has none. -/
def State.known (s : State) (d : JsString) : Bool := d = HOST_DAEMON || s.servers d

def State.current (s : State) : JsString := daemonKey s.serverId

/-- What a request saves once it has read the list again. -/
def Patch.moved (m : Patch) (fresh : List JsString) : List JsString :=
  if m.target ≠ m.before then recordMove fresh m.before m.target else fresh

/-- The sweep reads the row; nothing is swept when the application has moved or
nothing is pending. -/
def startSweep (s : State) (p : Nat) (r : Run) : State :=
  if s.serverId ≠ r.server || pendingDaemons s.previousDaemons s.serverId = [] then
    { s with runs := Function.update s.runs p none }
  else
    { s with
      runs := Function.update s.runs p (some
        { r with
          sweep := some
            { fresh := s.previousDaemons
              seen := s.moves
              todo := pendingDaemons s.previousDaemons s.serverId
              done := [] } }) }

def cleanOne (s : State) (p : Nat) (r : Run) (w : Sweep) (d : JsString) (todo : List JsString)
    (found : Found) : Option State :=
  let next := fun done =>
    Function.update s.runs p (some { r with sweep := some { w with todo := todo, done := done } })
  match found with
  | .removed =>
    if s.known d then
      some
        { s with
          holds := Function.update s.holds d false
          swept := (d, s.current) :: s.swept
          runs := next (d :: w.done) }
    else none
  | .gone => if s.known d then none else some { s with runs := next (d :: w.done) }
  | .failed => some { s with swept := (d, s.current) :: s.swept, runs := next w.done }

/-- The sweep writes what it could not clean. -/
def endSweep (s : State) (p : Nat) (w : Sweep) : State :=
  { s with
    previousDaemons :=
      if w.done = [] then s.previousDaemons else w.fresh.filter (· ∉ w.done)
    runs := Function.update s.runs p none }

def step (s : State) : Action → Option State
  | .patch p server =>
    if (s.patches p).isSome then none else
    let target := server.getD s.serverId
    if s.known (daemonKey target) then
      some { s with patches := Function.update s.patches p (some ⟨s.serverId, target, s.moves, none⟩) }
    else none
  | .refresh p =>
    match s.patches p with
    | some m =>
      some
        { s with
          patches := Function.update s.patches p
            (some { m with list := some (m.moved s.previousDaemons) }) }
    | none => none
  | .save p =>
    match s.patches p with
    | some ⟨_, target, _, some list⟩ =>
      -- the foreign key refuses a server without a row
      if s.known (daemonKey target) then
        some
          { s with
            serverId := target
            previousDaemons := list
            moves := if target = s.serverId then s.moves else s.moves + 1
            patches := Function.update s.patches p none }
      else none
    | _ => none
  | .refuse p => some { s with patches := Function.update s.patches p none }
  | .deploy p =>
    if (s.runs p).isSome then none
    else some { s with runs := Function.update s.runs p (some ⟨s.serverId, none⟩) }
  | .create p =>
    match s.runs p with
    | some ⟨server, none⟩ =>
      if s.known (daemonKey server) then
        some { s with holds := Function.update s.holds (daemonKey server) true }
      else none
    | _ => none
  | .sweep p =>
    match s.runs p with
    | some ⟨server, none⟩ => some (startSweep s p ⟨server, none⟩)
    | _ => none
  | .clean p found =>
    match s.runs p with
    | some ⟨server, some w⟩ =>
      match w.todo with
      | d :: todo => cleanOne s p ⟨server, some w⟩ w d todo found
      | [] => none
    | _ => none
  | .retire p =>
    match s.runs p with
    | some ⟨_, some w⟩ => if w.todo = [] then some (endSweep s p w) else none
    | _ => none
  | .finish p => some { s with runs := Function.update s.runs p none }
  | .deleteServer d =>
    -- a server with applications cannot be deleted
    if s.serverId = some d then none
    else some { s with servers := Function.update s.servers d false }

/-- Every daemon that may hold a container is the current one or on the list. -/
def Recorded (s : State) : Prop :=
  ∀ d, s.known d = true → s.holds d = true → d ≠ s.current → d ∈ s.previousDaemons

/-- The daemon the application is on was never swept. -/
def CurrentSpared (s : State) : Prop := ∀ e ∈ s.swept, e.1 ≠ e.2

/-- No move was saved since a request or a sweep read the row, and a deployment
creates its container where the application is. -/
def Settled (s : State) : Action → Prop
  | .save p => ∀ m, s.patches p = some m → m.seen = s.moves
  | .create p => ∀ r, s.runs p = some r → r.server = s.serverId
  | .clean p _ => ∀ r, s.runs p = some r → ∀ w, r.sweep = some w → w.seen = s.moves
  | .retire p => ∀ r, s.runs p = some r → ∀ w, r.sweep = some w → w.seen = s.moves
  | _ => True

instance (s : State) : (a : Action) → Decidable (Settled s a)
  | .save _ | .create _ | .clean _ _ | .retire _ => by unfold Settled; infer_instance
  | .patch _ _ | .refresh _ | .refuse _ | .deploy _ | .sweep _ | .finish _ | .deleteServer _ =>
    isTrue trivial

/-- What a request may still save: its list covers what it leaves behind. -/
structure Patch.Sound (s : State) (m : Patch) : Prop where
  past : m.seen ≤ s.moves
  before : m.seen = s.moves → m.before = s.serverId
  covers : ∀ l, m.list = some l → m.seen = s.moves → ∀ d,
    d = s.current ∨ (s.known d = true ∧ s.holds d = true) → d ≠ daemonKey m.target → d ∈ l

/-- What a sweep still has to do, and what it has done. -/
structure Sweep.Sound (s : State) (w : Sweep) : Prop where
  past : w.seen ≤ s.moves
  todo : w.seen = s.moves → ∀ d ∈ w.todo, d ≠ s.current
  covers : w.seen = s.moves → ∀ d, s.known d = true → s.holds d = true → d ≠ s.current →
    d ∈ w.fresh
  done : w.seen = s.moves → ∀ d ∈ w.done, d ≠ s.current ∧ (s.known d = true → s.holds d = false)

structure Inv (s : State) : Prop where
  recorded : Recorded s
  spared : CurrentSpared s
  patches : ∀ p m, s.patches p = some m → m.Sound s
  sweeps : ∀ p r w, s.runs p = some r → r.sweep = some w → w.Sound s

/-- A step that moves nothing and fills no daemon but the current one. -/
structure Frame (s s' : State) : Prop where
  serverId : s'.serverId = s.serverId
  moves : s'.moves = s.moves
  holds : ∀ d, s'.known d = true → s'.holds d = true →
    d = s.current ∨ (s.known d = true ∧ s.holds d = true)

variable {s s' : State}

theorem Frame.current (h : Frame s s') : s'.current = s.current := by
  simp only [State.current, h.serverId]

variable {m : Patch}

theorem Patch.Sound.frame (hm : m.Sound s) (h : Frame s s') : m.Sound s' where
  past := h.moves ▸ hm.past
  before hseen := by
    rw [h.serverId]
    exact hm.before (hseen.trans h.moves)
  covers l hl hseen d hd hne := by
    refine hm.covers l hl (hseen.trans h.moves) d ?_ hne
    rcases hd with hcur | ⟨hknown, hholds⟩
    · exact Or.inl (hcur.trans h.current)
    · exact h.holds d hknown hholds

variable {w : Sweep}

theorem Sweep.Sound.frame (hw : w.Sound s) (h : Frame s s') : w.Sound s' where
  past := h.moves ▸ hw.past
  todo hseen := by
    rw [h.current]
    exact hw.todo (hseen.trans h.moves)
  covers hseen d hknown hholds hne := by
    rw [h.current] at hne
    obtain ⟨hknown, hholds⟩ := (h.holds d hknown hholds).resolve_left hne
    exact hw.covers (hseen.trans h.moves) d hknown hholds hne
  done hseen d hd := by
    obtain ⟨hne, hempty⟩ := hw.done (hseen.trans h.moves) d hd
    refine ⟨h.current ▸ hne, fun hknown => ?_⟩
    by_contra hholds
    obtain ⟨hknown, hholds⟩ := (h.holds d hknown (by simpa using hholds)).resolve_left hne
    rw [hempty hknown] at hholds
    cases hholds

/-- A request or a sweep that a move has overtaken promises nothing. -/
theorem Patch.sound_of_lt (h : m.seen < s.moves) : m.Sound s where
  past := Nat.le_of_lt h
  before hseen := absurd hseen (Nat.ne_of_lt h)
  covers _ _ hseen := absurd hseen (Nat.ne_of_lt h)

theorem Sweep.sound_of_lt (h : w.seen < s.moves) : w.Sound s where
  past := Nat.le_of_lt h
  todo hseen := absurd hseen (Nat.ne_of_lt h)
  covers hseen := absurd hseen (Nat.ne_of_lt h)
  done hseen := absurd hseen (Nat.ne_of_lt h)

/-- The list keeps covering what it covered. -/
theorem Recorded.frame (hs : Recorded s) (h : Frame s s')
    (hlist : s'.previousDaemons = s.previousDaemons) : Recorded s' := by
  intro d hknown hholds hne
  rw [h.current] at hne
  obtain ⟨hknown, hholds⟩ := (h.holds d hknown hholds).resolve_left hne
  rw [hlist]
  exact hs d hknown hholds hne

/-- The invariant across a step that moves nothing: what changed is shown, the
rest is framed. -/
theorem Inv.of_frame (h : Frame s s') (hrec : Recorded s') (hspared : CurrentSpared s')
    (hpatches : ∀ p m, s'.patches p = some m → m.Sound s ∨ m.Sound s')
    (hsweeps : ∀ p r w, s'.runs p = some r → r.sweep = some w → w.Sound s ∨ w.Sound s') :
    Inv s' where
  recorded := hrec
  spared := hspared
  patches p m hm := (hpatches p m hm).elim (·.frame h) id
  sweeps p r w hr hw := (hsweeps p r w hr hw).elim (·.frame h) id

/-- Nothing but copies changes. -/
theorem frame_of_eq (hserver : s'.serverId = s.serverId) (hmoves : s'.moves = s.moves)
    (hservers : s'.servers = s.servers) (hholds : s'.holds = s.holds) : Frame s s' where
  serverId := hserver
  moves := hmoves
  holds d hknown hd := by
    refine Or.inr ⟨?_, hholds ▸ hd⟩
    simpa only [State.known, hservers] using hknown

variable {p : Nat}

/-- Taking a run or a request off, or putting one in that promises nothing. -/
theorem sweeps_update (hinv : Inv s) {v : Option Run}
    (hv : ∀ r w, v = some r → r.sweep = some w → w.Sound s ∨ w.Sound s') :
    ∀ q r w, update s.runs p v q = some r → r.sweep = some w → w.Sound s ∨ w.Sound s' := by
  intro q r w hr hw
  rcases Runs.update_eq_some hr with ⟨-, hr⟩ | ⟨-, hr⟩
  · exact hv r w hr hw
  · exact Or.inl (hinv.sweeps q r w hr hw)

theorem patches_update (hinv : Inv s) {v : Option Patch}
    (hv : ∀ m, v = some m → m.Sound s ∨ m.Sound s') :
    ∀ q m, update s.patches p v q = some m → m.Sound s ∨ m.Sound s' := by
  intro q m hm
  rcases Runs.update_eq_some hm with ⟨-, hm⟩ | ⟨-, hm⟩
  · exact hv m hm
  · exact Or.inl (hinv.patches q m hm)

theorem Inv.framed_patches (hinv : Inv s) : ∀ q m, s.patches q = some m → m.Sound s ∨ m.Sound s' :=
  fun q m hm => Or.inl (hinv.patches q m hm)

theorem Inv.framed_sweeps (hinv : Inv s) :
    ∀ q r w, s.runs q = some r → r.sweep = some w → w.Sound s ∨ w.Sound s' :=
  fun q r w hr hw => Or.inl (hinv.sweeps q r w hr hw)

/-- Reading the list again covers the daemon the request leaves, too. -/
theorem Patch.Sound.refresh (hm : m.Sound s) (hrec : Recorded s) :
    Patch.Sound s { m with list := some (m.moved s.previousDaemons) } where
  past := hm.past
  before := hm.before
  covers l hl hseen d hd hne := by
    obtain rfl := some.inj hl
    have hbefore := hm.before hseen
    have hold : d ≠ s.current → d ∈ s.previousDaemons := fun hcur =>
      let ⟨hknown, hholds⟩ := hd.resolve_left hcur
      hrec d hknown hholds hcur
    unfold Patch.moved
    split
    · rw [mem_recordMove, hbefore]
      refine ⟨?_, hne⟩
      by_cases hcur : d = s.current
      · exact Or.inr hcur
      · exact Or.inl (hold hcur)
    · next hsame =>
      refine hold fun hcur => hne ?_
      rw [not_not.mp hsame, hbefore]
      exact hcur

theorem Inv.save {list : List JsString} (hinv : Inv s) (hm : s.patches p = some m)
    (hlist : m.list = some list) (hseen : m.seen = s.moves) :
    Inv { s with
      serverId := m.target
      previousDaemons := list
      moves := if m.target = s.serverId then s.moves else s.moves + 1
      patches := update s.patches p none } := by
  have hcovers := (hinv.patches p m hm).covers list hlist hseen
  have hrec : ∀ d, s.known d = true → s.holds d = true → d ≠ daemonKey m.target → d ∈ list :=
    fun d hknown hholds => hcovers d (Or.inr ⟨hknown, hholds⟩)
  by_cases hsame : m.target = s.serverId
  · refine Inv.of_frame (s := s) ?_ hrec hinv.spared ?_ hinv.framed_sweeps
    · exact frame_of_eq hsame (if_pos hsame) rfl rfl
    · exact patches_update hinv (fun _ h => by cases h)
  · -- whoever read the row before is overtaken
    have hmoves : s.moves < if m.target = s.serverId then s.moves else s.moves + 1 := by
      rw [if_neg hsame]
      omega
    refine ⟨hrec, hinv.spared, ?_, ?_⟩
    · intro q m' hm'
      rcases Runs.update_eq_some hm' with ⟨-, hm'⟩ | ⟨-, hm'⟩
      · cases hm'
      · exact Patch.sound_of_lt (Nat.lt_of_le_of_lt (hinv.patches q m' hm').past hmoves)
    · intro q r w hr hw
      exact Sweep.sound_of_lt (Nat.lt_of_le_of_lt (hinv.sweeps q r w hr hw).past hmoves)

theorem Inv.create (hinv : Inv s) : Inv { s with holds := update s.holds s.current true } := by
  have hframe : Frame s { s with holds := update s.holds s.current true } := by
    refine ⟨rfl, rfl, fun d hknown hholds => ?_⟩
    by_cases hd : d = s.current
    · exact Or.inl hd
    · exact Or.inr ⟨hknown, by simpa [update_of_ne hd] using hholds⟩
  exact .of_frame hframe (hinv.recorded.frame hframe rfl) hinv.spared hinv.framed_patches
    hinv.framed_sweeps

theorem inv_startSweep (hinv : Inv s) (p : Nat) (r : Run) : Inv (startSweep s p r) := by
  unfold startSweep
  split
  · exact .of_frame (s := s) (frame_of_eq rfl rfl rfl rfl) hinv.recorded hinv.spared hinv.framed_patches
      (sweeps_update hinv fun _ _ h => by cases h)
  · refine .of_frame (s := s) (frame_of_eq rfl rfl rfl rfl) hinv.recorded hinv.spared hinv.framed_patches
      (sweeps_update hinv fun r' w hr hw => Or.inl ?_)
    cases hr
    cases hw
    exact
      { past := Nat.le_refl _
        todo := fun _ d hd => by
          simpa [State.current] using (List.mem_filter.mp hd).2
        covers := fun _ => hinv.recorded
        done := fun _ d hd => by cases hd }

/-- A daemon that has been cleaned, or has nothing left to clean, is done. -/
theorem Sweep.Sound.clean {todo done : List JsString} (hw : w.Sound s) (htodo : w.todo = d :: todo)
    (hframe : Frame s s')
    (hdone : ∀ x ∈ done, x ∈ w.done ∨ (x = d ∧ (s'.known d = true → s'.holds d = false))) :
    Sweep.Sound s' { w with todo := todo, done := done } where
  past := (hw.frame hframe).past
  todo hseen x hx := (hw.frame hframe).todo hseen x (by rw [htodo]; exact List.mem_cons_of_mem d hx)
  covers := (hw.frame hframe).covers
  done hseen x hx := by
    rcases hdone x hx with hx | ⟨rfl, hempty⟩
    · exact (hw.frame hframe).done hseen x hx
    · exact ⟨(hw.frame hframe).todo hseen x (by rw [htodo]; exact List.mem_cons_self), hempty⟩

/-- One daemon of a sweep that no move has overtaken. -/
theorem inv_cleanOne {r : Run} {todo : List JsString} {found : Found} (hinv : Inv s)
    (hr : s.runs p = some r) (hw : r.sweep = some w) (htodo : w.todo = d :: todo)
    (hseen : w.seen = s.moves) (h : cleanOne s p r w d todo found = some s') : Inv s' := by
  have hsound := hinv.sweeps p r w hr hw
  have hcur : d ≠ s.current := hsound.todo hseen d (by rw [htodo]; exact List.mem_cons_self)
  have hspared : ∀ e ∈ (d, s.current) :: s.swept, e.1 ≠ e.2 := by
    intro e he
    rcases List.mem_cons.mp he with rfl | he
    · exact hcur
    · exact hinv.spared e he
  cases found with
  | removed =>
    simp only [cleanOne] at h
    split at h
    · obtain rfl := some.inj h
      have hframe : Frame s { s with holds := update s.holds d false } := by
        refine ⟨rfl, rfl, fun x hknown hholds => Or.inr ⟨hknown, ?_⟩⟩
        by_cases hx : x = d
        · subst hx
          simp at hholds
        · simpa [update_of_ne hx] using hholds
      refine .of_frame (s := s) ⟨rfl, rfl, hframe.holds⟩
        (hinv.recorded.frame ⟨rfl, rfl, hframe.holds⟩ rfl) hspared hinv.framed_patches
        (sweeps_update hinv fun r' w' hr' hw' => Or.inr ?_)
      cases hr'
      cases hw'
      refine hsound.clean htodo ⟨rfl, rfl, hframe.holds⟩ fun x hx => ?_
      exact (List.mem_cons.mp hx).symm.imp_right fun hx => ⟨hx, fun _ => by simp⟩
    · cases h
  | gone =>
    simp only [cleanOne] at h
    split at h
    · cases h
    · next hgone =>
      obtain rfl := some.inj h
      refine .of_frame (s := s) (frame_of_eq rfl rfl rfl rfl) hinv.recorded hinv.spared hinv.framed_patches
        (sweeps_update hinv fun r' w' hr' hw' => Or.inl ?_)
      cases hr'
      cases hw'
      refine hsound.clean htodo (frame_of_eq rfl rfl rfl rfl) fun x hx => ?_
      exact (List.mem_cons.mp hx).symm.imp_right fun hx => ⟨hx, fun hknown => absurd hknown hgone⟩
  | failed =>
    obtain rfl := some.inj h
    refine .of_frame (s := s) (frame_of_eq rfl rfl rfl rfl) hinv.recorded hspared hinv.framed_patches
      (sweeps_update hinv fun r' w' hr' hw' => Or.inl ?_)
    cases hr'
    cases hw'
    exact hsound.clean htodo (frame_of_eq rfl rfl rfl rfl) fun x hx => Or.inl hx

/-- A deleted server takes the daemons no longer known with it. -/
theorem Inv.deleteServer {s : State} (hinv : Inv s) (d : JsString) :
    Inv { s with servers := update s.servers d false } := by
  have hframe : Frame s { s with servers := update s.servers d false } := by
    refine ⟨rfl, rfl, fun x hknown hholds => Or.inr ⟨?_, hholds⟩⟩
    by_cases hx : x = d
    · subst hx
      simp only [State.known, update_self, Bool.or_false] at hknown
      simp [State.known, hknown]
    · simpa [State.known, update_of_ne hx] using hknown
  exact .of_frame hframe (hinv.recorded.frame hframe rfl) hinv.spared hinv.framed_patches
    hinv.framed_sweeps

/-- A sweep that no move has overtaken drops only daemons it has emptied. -/
theorem inv_endSweep {r : Run} (hinv : Inv s) (hr : s.runs p = some r) (hw : r.sweep = some w)
    (hseen : w.seen = s.moves) : Inv (endSweep s p w) := by
  have hsound := hinv.sweeps p r w hr hw
  refine .of_frame (s := s) (frame_of_eq rfl rfl rfl rfl) ?_ hinv.spared hinv.framed_patches
    (sweeps_update hinv fun _ _ h => by cases h)
  intro d hknown hholds hne
  unfold endSweep
  dsimp only
  split
  · exact hinv.recorded d hknown hholds hne
  · refine List.mem_filter.mpr ⟨hsound.covers hseen d hknown hholds hne, ?_⟩
    simp only [decide_eq_true_eq]
    intro hd
    have hempty := (hsound.done hseen d hd).2 hknown
    rw [show s.holds d = true from hholds] at hempty
    cases hempty

theorem inv_step (s : State) (a : Action) (s' : State) (hinv : Inv s) (hcond : Settled s a)
    (h : step s a = some s') : Inv s' := by
  cases a with
  | patch p server =>
    simp only [step] at h
    split at h
    · cases h
    split at h
    · obtain rfl := some.inj h
      refine .of_frame (s := s) (frame_of_eq rfl rfl rfl rfl) hinv.recorded hinv.spared
        (patches_update hinv fun m hm => Or.inl ?_) hinv.framed_sweeps
      cases hm
      exact ⟨Nat.le_refl _, fun _ => rfl, fun l hl => by cases hl⟩
    · cases h
  | refresh p =>
    simp only [step] at h
    split at h
    · next m hm =>
      obtain rfl := some.inj h
      refine .of_frame (s := s) (frame_of_eq rfl rfl rfl rfl) hinv.recorded hinv.spared
        (patches_update hinv fun m' hm' => Or.inl ?_) hinv.framed_sweeps
      cases hm'
      exact (hinv.patches p m hm).refresh hinv.recorded
    · cases h
  | save p =>
    simp only [step] at h
    split at h
    · next before target seen list hm =>
      split at h
      · obtain rfl := some.inj h
        exact hinv.save hm rfl (hcond _ hm)
      · cases h
    · cases h
  | refuse p =>
    obtain rfl := some.inj h
    exact .of_frame (s := s) (frame_of_eq rfl rfl rfl rfl) hinv.recorded hinv.spared
      (patches_update hinv fun _ h => by cases h) hinv.framed_sweeps
  | deploy p =>
    simp only [step] at h
    split at h
    · cases h
    · obtain rfl := some.inj h
      refine .of_frame (s := s) (frame_of_eq rfl rfl rfl rfl) hinv.recorded hinv.spared
        hinv.framed_patches (sweeps_update hinv fun r w hr hw => ?_)
      cases hr
      cases hw
  | create p =>
    simp only [step] at h
    split at h
    · next server hr =>
      split at h
      · obtain rfl := some.inj h
        have hserver : server = s.serverId := hcond _ hr
        rw [hserver]
        exact hinv.create
      · cases h
    · cases h
  | sweep p =>
    simp only [step] at h
    split at h
    · obtain rfl := some.inj h
      exact inv_startSweep hinv p _
    · cases h
  | clean p found =>
    simp only [step] at h
    split at h
    · next server w hr =>
      split at h
      · next d todo htodo => exact inv_cleanOne hinv hr rfl htodo (hcond _ hr w rfl) h
      · cases h
    · cases h
  | retire p =>
    simp only [step] at h
    split at h
    · next server w hr =>
      split at h
      · obtain rfl := some.inj h
        exact inv_endSweep hinv hr rfl (hcond _ hr w rfl)
      · cases h
    · cases h
  | finish p =>
    obtain rfl := some.inj h
    exact .of_frame (s := s) (frame_of_eq rfl rfl rfl rfl) hinv.recorded hinv.spared
      hinv.framed_patches (sweeps_update hinv fun _ _ h => by cases h)
  | deleteServer d =>
    simp only [step] at h
    split at h
    · cases h
    · obtain rfl := some.inj h
      exact hinv.deleteServer d

theorem inv_initial (serverId : ServerId) (servers : JsString → Bool) :
    Inv (initial serverId servers) where
  recorded d _ hholds := by cases hholds
  spared e he := by cases he
  patches p m hm := by cases hm
  sweeps p r w hr := by cases hr

/-- **Every daemon with containers is on record and the current one is never
swept**, in every state of a run in which no move overtakes a request or a sweep
and containers are created where the application is. -/
theorem daemons_recorded (serverId : ServerId) (servers : JsString → Bool) (as : List Action)
    (s : State) (hmeets : Runs.Meets step Settled (initial serverId servers) as)
    (hexec : Runs.exec step (initial serverId servers) as = some s) :
    Recorded s ∧ CurrentSpared s :=
  have hinv := Runs.exec_invariant inv_step as _ s (inv_initial serverId servers) hmeets hexec
  ⟨hinv.recorded, hinv.spared⟩

def twoServers (d : JsString) : Bool := d ∈ [js "b", js "c"]

/-- From the host to `b` and on to `c`, deploying on each; the host cannot be
cleaned either time. -/
def chain : List Action :=
  [.deploy 0, .create 0, .sweep 0, .patch 1 (some (some (js "b"))), .refresh 1, .save 1,
    .deploy 2, .create 2, .sweep 2, .clean 2 .failed, .retire 2,
    .patch 3 (some (some (js "c"))), .refresh 3, .save 3,
    .deploy 4, .create 4, .sweep 4, .clean 4 .failed, .clean 4 .removed, .retire 4]

theorem daemons_recorded_chain : ∃ s,
    Runs.exec step (initial none twoServers) chain = some s ∧
      s.previousDaemons = [HOST_DAEMON] ∧ Recorded s ∧ CurrentSpared s := by
  refine ⟨_, rfl, by decide, daemons_recorded none twoServers chain _ ?_ rfl⟩
  decide

/-- The second move is saved while the sweep of the first cleans the host. -/
def overtaken : List Action :=
  [.deploy 0, .create 0, .sweep 0, .patch 1 (some (some (js "b"))), .refresh 1, .save 1,
    .deploy 2, .create 2, .sweep 2,
    .patch 3 (some (some (js "c"))), .refresh 3, .save 3, .clean 2 .removed, .retire 2]

/-- `b` holds a container, the application is on `c`, and nothing is on record. -/
theorem move_forgotten : ¬ ∀ (serverId : ServerId) (servers : JsString → Bool) (as : List Action)
    (s : State), Runs.exec step (initial serverId servers) as = some s →
      Recorded s ∧ CurrentSpared s := by
  intro h
  have hrec := (h none twoServers overtaken _ rfl).1
  exact absurd (hrec (js "b") (by decide) (by decide) (by decide)) (by decide)

end Aoox.PreviousDaemons
