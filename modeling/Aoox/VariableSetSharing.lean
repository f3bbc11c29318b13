import Aoox.Runs
import Mathlib.Order.Nat
import Mathlib.Data.List.Nodup

/-! # Sharing variable sets and linking their environments

An application or compose stack may link an environment only if the
environment's set is shared with its project or with all projects.  Two services
keep that rule, each by a check followed by a write in a later transaction:
`VariableSetLinkService.validate` reads the sharing and `replace` writes the
links, while `VariableSetService.share` reads the links and then writes the
sharing.  No constraint ties the two tables together.

An action is one database call of one request.  The two counters of the state
are read by no step: they number, per set, the writes that take sharing away and
the writes that add links, so that one can say of a request whether such a write
came between its check and its own write.
-/
open List Option
namespace Aoox.Sharing

/-- `LinkOwnerKind`. -/
inductive OwnerKind where
  | application | compose
  deriving DecidableEq

/-- An application or compose stack. -/
structure Owner where
  kind : OwnerKind
  id : Nat
  deriving DecidableEq

/-- The rows that no share or link call changes. -/
structure Catalog where
  /-- The set of an environment; `none` when there is no such environment. -/
  setOf : Nat → Option Nat
  isProtected : Nat → Bool
  /-- The project of an application or stack. -/
  projectOf : Owner → Nat
  projectExists : Nat → Bool

/-- A row of `variable_set_links`. -/
structure Link where
  owner : Owner
  (environmentId position : Nat)
  deriving DecidableEq

/-- The arguments of `share`. -/
structure ShareCall where
  setId : Nat
  sharedWithAll : Bool
  projectIds : List Nat

/-- The arguments of a link update.  `role` is `none` for callers without a role
rule (`actorId` null), else whether the actor is an admin of the project. -/
structure LinkCall where
  owner : Owner
  environmentIds : List Nat
  role : Option Bool

/-- `MAX_LINKS`. -/
def maxLinks : Nat := 10

/-- Where a request stands. -/
inductive Phase where
  | idle
  | sharing (c : ShareCall)
  /-- The users were checked when `seen` link writes had named the set. -/
  | shareReady (c : ShareCall) (seen : Nat)
  /-- `validate` has the owner's links and the environments and is reading the
  sharing: the sets shared with all, the sets shared with the project, and how
  often each set's sharing had been narrowed before the first of the two reads. -/
  | validating (c : LinkCall) (current : List Nat) (all shares : Option (List Nat))
      (seen : Nat → Nat)
  | linkReady (c : LinkCall) (seen : Nat → Nat)
  | done
  /-- A 400, 403 or 409 answer. -/
  | refused

/-- The tables, and the two counters. -/
structure Tables where
  sharedWithAll : Nat → Bool
  /-- Rows of `variable_set_projects`: set, project. -/
  shares : List (Nat × Nat)
  links : List Link
  /-- Per set: the share writes that did not share it with all. -/
  narrowed : Nat → Nat
  /-- Per set: the link writes that named one of its environments. -/
  linked : Nat → Nat

structure State where
  tables : Tables
  phase : Nat → Phase

/-- Request `p` has moved on. -/
def State.goto (s : State) (p : Nat) (ph : Phase) : State :=
  { s with phase := Function.update s.phase p ph }

inductive Action where
  | share (p : Nat) (c : ShareCall)
  /-- `usersOfSet`, only made when the set is not to be shared with all. -/
  | checkUsers (p : Nat)
  | commitShare (p : Nat)
  /-- `validate` up to its reads of the sharing. -/
  | link (p : Nat) (c : LinkCall)
  | readSets (p : Nat)
  | readShares (p : Nat)
  /-- The rest of `validate` and the reference check, which may still refuse. -/
  | decide (p : Nat) (referencesResolve : Bool)
  | commitLinks (p : Nat)

variable (cat : Catalog)

def usersOfSet (links : List Link) (setId : Nat) : List Owner :=
  ((links.filter fun l => cat.setOf l.environmentId = some setId).map Link.owner).eraseDups

def environmentIdsFor (links : List Link) (o : Owner) : List Nat :=
  (links.filter fun l => l.owner = o).map Link.environmentId

def setsOf (environmentIds : List Nat) : List Nat := environmentIds.filterMap cat.setOf

/-- The links `replace` inserts, in order. -/
def newLinks (c : LinkCall) : List Link :=
  c.environmentIds.zipIdx.map fun (e, i) => ⟨c.owner, e, i⟩

/-- The transaction of `share`. -/
def Tables.writeShare (t : Tables) (c : ShareCall) : Tables :=
  { t with
    sharedWithAll := Function.update t.sharedWithAll c.setId c.sharedWithAll
    shares := t.shares.filter (fun r : Nat × Nat => r.1 ≠ c.setId) ++
      c.projectIds.map (fun j => (c.setId, j))
    narrowed := fun i => t.narrowed i + if i = c.setId ∧ c.sharedWithAll = false then 1 else 0 }

/-- The transaction of `replace`. -/
def Tables.writeLinks (t : Tables) (c : LinkCall) : Tables :=
  { t with
    links := t.links.filter (fun l : Link => l.owner ≠ c.owner) ++ newLinks c
    linked := fun i => t.linked i + if i ∈ setsOf cat c.environmentIds then 1 else 0 }

/-- Whether the role rule refuses: a protected environment is linked or unlinked
by someone who is not an admin of the project. -/
def roleRefuses (c : LinkCall) (current : List Nat) : Bool :=
  match c.role with
  | none => false
  | some admin =>
    !admin && (c.environmentIds.any (fun e => e ∉ current && cat.isProtected e) ||
      current.any (fun e => e ∉ c.environmentIds && cat.isProtected e))

def step (s : State) : Action → Option State
  | .share p c =>
    match s.phase p with
    | .idle =>
      let c' : ShareCall := { c with projectIds := c.projectIds.eraseDups }
      some (s.goto p (if c'.projectIds.all cat.projectExists then .sharing c' else .refused))
    | _ => none
  | .checkUsers p =>
    match s.phase p with
    | .sharing c =>
      if c.sharedWithAll then none
      else if (usersOfSet cat s.tables.links c.setId).all fun o => cat.projectOf o ∈ c.projectIds
      then some (s.goto p (.shareReady c (s.tables.linked c.setId)))
      else some (s.goto p .refused)
    | _ => none
  | .commitShare p =>
    match s.phase p with
    | .sharing c =>
      if c.sharedWithAll then some ({ s with tables := s.tables.writeShare c }.goto p .done)
      else none
    | .shareReady c _ => some ({ s with tables := s.tables.writeShare c }.goto p .done)
    | _ => none
  | .link p c =>
    match s.phase p with
    | .idle =>
      if c.environmentIds.length > maxLinks ∨ ¬ c.environmentIds.Nodup ∨
          ¬ c.environmentIds.all fun e => (cat.setOf e).isSome then
        some (s.goto p .refused)
      else some (s.goto p (.validating c (environmentIdsFor s.tables.links c.owner) none none
        s.tables.narrowed))
    | _ => none
  | .readSets p =>
    match s.phase p with
    | .validating c current none shares seen =>
      some (s.goto p (.validating c current
        (some ((setsOf cat c.environmentIds).filter s.tables.sharedWithAll)) shares
        (if shares.isNone then s.tables.narrowed else seen)))
    | _ => none
  | .readShares p =>
    match s.phase p with
    | .validating c current all none seen =>
      some (s.goto p (.validating c current all
        (some ((setsOf cat c.environmentIds).filter fun i =>
          (i, cat.projectOf c.owner) ∈ s.tables.shares))
        (if all.isNone then s.tables.narrowed else seen)))
    | _ => none
  | .decide p referencesResolve =>
    match s.phase p with
    | .validating c current (some all) (some shares) seen =>
      if (setsOf cat c.environmentIds).any fun i => i ∉ all ++ shares then
        some (s.goto p .refused)
      else if roleRefuses cat c current || !referencesResolve then some (s.goto p .refused)
      else some (s.goto p (.linkReady c seen))
    | _ => none
  | .commitLinks p =>
    match s.phase p with
    | .linkReady c _ => some ({ s with tables := s.tables.writeLinks cat c }.goto p .done)
    | _ => none

/-- Set `i` may be used by project `j`. -/
def Tables.Shared (t : Tables) (i j : Nat) : Prop := t.sharedWithAll i = true ∨ (i, j) ∈ t.shares

/-- Every link names an environment whose set is shared with the owner's project
or with all. -/
def Tables.LinksShared (t : Tables) : Prop :=
  ∀ l ∈ t.links, ∃ i, cat.setOf l.environmentId = some i ∧ t.Shared i (cat.projectOf l.owner)

/-- No write of the other side came between a request's check and its own write:
no narrowing of one of its sets since `validate` began to read the sharing, no
link to the set since `share` read its users. -/
def Undisturbed (s : State) : Action → Prop
  | .commitShare p => ∀ c seen, s.phase p = .shareReady c seen → s.tables.linked c.setId = seen
  | .commitLinks p => ∀ c seen, s.phase p = .linkReady c seen →
      ∀ i ∈ setsOf cat c.environmentIds, s.tables.narrowed i = seen i
  | _ => True

/-! ## What a check is still worth -/

/-- What a request has learned, as long as no write disturbed it. -/
def Phase.Sound (t : Tables) : Phase → Prop
  | .shareReady c seen => c.sharedWithAll = false ∧ seen ≤ t.linked c.setId ∧
      (t.linked c.setId = seen → ∀ l ∈ t.links, cat.setOf l.environmentId = some c.setId →
        cat.projectOf l.owner ∈ c.projectIds)
  | .validating c _ all shares seen =>
      (∀ e ∈ c.environmentIds, (cat.setOf e).isSome) ∧
      ∀ i ∈ setsOf cat c.environmentIds, seen i ≤ t.narrowed i ∧
        (t.narrowed i = seen i → ∀ a, (all = some a ∨ shares = some a) → i ∈ a →
          t.Shared i (cat.projectOf c.owner))
  | .linkReady c seen =>
      (∀ e ∈ c.environmentIds, (cat.setOf e).isSome) ∧
      ∀ i ∈ setsOf cat c.environmentIds, seen i ≤ t.narrowed i ∧
        (t.narrowed i = seen i → t.Shared i (cat.projectOf c.owner))
  | _ => True

structure Inv (s : State) : Prop where
  linksShared : s.tables.LinksShared cat
  sound : ∀ p, (s.phase p).Sound cat s.tables

variable {cat}

variable {s : State}

theorem Inv.goto (hs : Inv cat s) (p : Nat) {ph : Phase}
    (hph : ph.Sound cat s.tables) : Inv cat (s.goto p ph) := by
  refine ⟨hs.linksShared, fun q => ?_⟩
  by_cases hq : q = p
  · subst hq
    simpa [State.goto] using hph
  · simpa [State.goto, Function.update_of_ne hq] using hs.sound q

theorem mem_usersOfSet {links : List Link} {setId : Nat} {l : Link} (hl : l ∈ links)
    (hset : cat.setOf l.environmentId = some setId) : l.owner ∈ usersOfSet cat links setId := by
  rw [usersOfSet, mem_eraseDups]
  exact mem_map.mpr ⟨l, mem_filter.mpr ⟨hl, by simpa using hset⟩, rfl⟩

variable {t : Tables}

/-- A share write takes nothing away from another set, and nothing at all when
it shares with all. -/
theorem Tables.Shared.writeShare {i j : Nat} (h : t.Shared i j) (c : ShareCall)
    (hc : i = c.setId → c.sharedWithAll = true) : (t.writeShare c).Shared i j := by
  by_cases hi : i = c.setId
  · subst hi
    left
    simpa [Tables.writeShare] using hc rfl
  · rcases h with h | h
    · left
      simpa [Tables.writeShare, Function.update_of_ne hi] using h
    · right
      exact mem_append_left _ (mem_filter.mpr ⟨h, by simpa using hi⟩)

/-- After a share write the projects it names may use the set. -/
theorem shared_writeShare_self (t : Tables) (c : ShareCall) {j : Nat} (hj : j ∈ c.projectIds) :
    (t.writeShare c).Shared c.setId j :=
  Or.inr (mem_append_right _ (mem_map.mpr ⟨j, hj, rfl⟩))

/-- A narrowing is counted, so where the count stands still, sharing stays. -/
theorem Tables.Shared.of_narrowed {c : ShareCall} {i j seen : Nat} (hle : seen ≤ t.narrowed i)
    (h : t.narrowed i = seen → t.Shared i j)
    (heq : (t.writeShare c).narrowed i = seen) : (t.writeShare c).Shared i j := by
  simp only [Tables.writeShare] at heq
  split at heq
  · omega
  · rename_i hn
    refine (h (by omega)).writeShare c (fun hi => ?_)
    cases hall : c.sharedWithAll with
    | true => rfl
    | false => exact absurd ⟨hi, hall⟩ hn

theorem narrowed_le_writeShare (t : Tables) (c : ShareCall) (i : Nat) :
    t.narrowed i ≤ (t.writeShare c).narrowed i := by
  simp only [Tables.writeShare]
  omega

theorem Phase.Sound.writeShare {ph : Phase} (h : ph.Sound cat t) (c : ShareCall) :
    ph.Sound cat (t.writeShare c) := by
  cases ph with
  | shareReady c' seen => exact h
  | validating c' current all shares seen =>
    refine ⟨h.1, fun i hi => ?_⟩
    obtain ⟨hle, hsh⟩ := h.2 i hi
    refine ⟨hle.trans (narrowed_le_writeShare t c i), fun heq a ha hia => ?_⟩
    exact Tables.Shared.of_narrowed hle (fun he => hsh he a ha hia) heq
  | linkReady c' seen =>
    refine ⟨h.1, fun i hi => ?_⟩
    obtain ⟨hle, hsh⟩ := h.2 i hi
    exact ⟨hle.trans (narrowed_le_writeShare t c i),
      fun heq => Tables.Shared.of_narrowed hle hsh heq⟩
  | _ => trivial

variable {c : LinkCall}

theorem mem_newLinks {l : Link} (h : l ∈ newLinks c) :
    l.owner = c.owner ∧ l.environmentId ∈ c.environmentIds := by
  obtain ⟨⟨e, i⟩, hei, rfl⟩ := mem_map.mp h
  exact ⟨rfl, fst_mem_of_mem_zipIdx hei⟩

theorem mem_setsOf {environmentIds : List Nat} {e i : Nat} (he : e ∈ environmentIds)
    (hi : cat.setOf e = some i) : i ∈ setsOf cat environmentIds :=
  mem_filterMap.mpr ⟨e, he, hi⟩

theorem Phase.Sound.writeLinks {ph : Phase} (h : ph.Sound cat t) (c : LinkCall) :
    ph.Sound cat (t.writeLinks cat c) := by
  cases ph with
  | shareReady c' seen =>
    obtain ⟨hall, hle, husers⟩ := h
    refine ⟨hall, hle.trans (Nat.le_add_right _ _), fun heq l hl hset => ?_⟩
    simp only [Tables.writeLinks] at heq hl
    split at heq
    · omega
    · rename_i hnot
      rcases mem_append.mp hl with hl | hl
      · exact husers (by omega) l (mem_filter.mp hl).1 hset
      · exact absurd (mem_setsOf (mem_newLinks hl).2 hset) hnot
  | validating c' current all shares seen => exact h
  | linkReady c' seen => exact h
  | _ => trivial

/-! ## What each step adds -/

/-- What `share` knows when it has found every user in its list of projects. -/
theorem sound_shareReady {c : ShareCall} (hall : c.sharedWithAll = false)
    (husers : (usersOfSet cat t.links c.setId).all fun o => cat.projectOf o ∈ c.projectIds) :
    (Phase.shareReady c (t.linked c.setId)).Sound cat t := by
  refine ⟨hall, le_rfl, fun _ l hl hset => ?_⟩
  exact of_decide_eq_true (all_eq_true.mp husers _ (mem_usersOfSet hl hset))

variable {seen : Nat → Nat}

theorem Phase.Sound.readSets {current : List Nat} {shares : Option (List Nat)}
    (h : (Phase.validating c current none shares seen).Sound cat t) :
    (Phase.validating c current (some ((setsOf cat c.environmentIds).filter t.sharedWithAll)) shares
      (if shares.isNone then t.narrowed else seen)).Sound cat t := by
  refine ⟨h.1, fun i hi => ⟨?_, fun heq a ha hia => ?_⟩⟩
  · split
    · exact le_rfl
    · exact (h.2 i hi).1
  · rcases ha with ha | ha
    · obtain rfl := some.inj ha
      exact Or.inl (by simpa using (mem_filter.mp hia).2)
    · subst ha
      exact (h.2 i hi).2 (by simpa using heq) a (Or.inr rfl) hia

/-- `validate` reads the sets shared with the project. -/
theorem Phase.Sound.readShares {current : List Nat} {all : Option (List Nat)}
    (h : (Phase.validating c current all none seen).Sound cat t) :
    (Phase.validating c current all
      (some ((setsOf cat c.environmentIds).filter fun i => (i, cat.projectOf c.owner) ∈ t.shares))
      (if all.isNone then t.narrowed else seen)).Sound cat t := by
  refine ⟨h.1, fun i hi => ⟨?_, fun heq a ha hia => ?_⟩⟩
  · split
    · exact le_rfl
    · exact (h.2 i hi).1
  · rcases ha with ha | ha
    · subst ha
      exact (h.2 i hi).2 (by simpa using heq) a (Or.inl rfl) hia
    · obtain rfl := some.inj ha
      exact Or.inr (by simpa using (mem_filter.mp hia).2)

/-- `validate` accepts: every set is in one of the two lists. -/
theorem Phase.Sound.linkReady {current all shares : List Nat}
    (h : (Phase.validating c current (some all) (some shares) seen).Sound cat t)
    (hany : ¬ (setsOf cat c.environmentIds).any fun i => i ∉ all ++ shares) :
    (Phase.linkReady c seen).Sound cat t := by
  refine ⟨h.1, fun i hi => ⟨(h.2 i hi).1, fun heq => ?_⟩⟩
  have hmem : i ∈ all ++ shares := by
    by_contra hnot
    exact hany (any_eq_true.mpr ⟨i, hi, by simpa using hnot⟩)
  rcases mem_append.mp hmem with hm | hm
  · exact (h.2 i hi).2 heq all (Or.inl rfl) hm
  · exact (h.2 i hi).2 heq shares (Or.inr rfl) hm

/-- The transaction of `share`, when it keeps the set for everybody who links
it. -/
theorem Inv.writeShare (hs : Inv cat s) (p : Nat) (c : ShareCall)
    (hkeep : ∀ l ∈ s.tables.links, cat.setOf l.environmentId = some c.setId →
      c.sharedWithAll = true ∨ cat.projectOf l.owner ∈ c.projectIds) :
    Inv cat ({ s with tables := s.tables.writeShare c }.goto p .done) := by
  refine Inv.goto ⟨fun l hl => ?_, fun q => (hs.sound q).writeShare c⟩ p trivial
  obtain ⟨i, hi, hsh⟩ := hs.linksShared l hl
  refine ⟨i, hi, ?_⟩
  by_cases hic : i = c.setId
  · subst hic
    rcases hkeep l hl hi with hall | hproject
    · exact hsh.writeShare c fun _ => hall
    · exact shared_writeShare_self _ c hproject
  · exact hsh.writeShare c fun he => absurd he hic

/-- The transaction of `replace`, when the new links name shared sets. -/
theorem Inv.writeLinks (hs : Inv cat s) (p : Nat) (c : LinkCall)
    (hnew : ∀ e ∈ c.environmentIds, ∃ i, cat.setOf e = some i ∧
      s.tables.Shared i (cat.projectOf c.owner)) :
    Inv cat ({ s with tables := s.tables.writeLinks cat c }.goto p .done) := by
  refine Inv.goto ⟨fun l hl => ?_, fun q => (hs.sound q).writeLinks c⟩ p trivial
  rcases mem_append.mp hl with hl | hl
  · exact hs.linksShared l (mem_filter.mp hl).1
  · obtain ⟨howner, he⟩ := mem_newLinks hl
    rw [howner]
    exact hnew _ he

/-! ## Steps and runs -/

/-- **Every undisturbed step keeps the invariant.** -/
theorem step_inv {s' : State} {a : Action} (hs : Inv cat s) (ha : Undisturbed cat s a)
    (h : step cat s a = some s') : Inv cat s' := by
  cases a with
  | share p c =>
    simp only [step] at h
    split at h
    · obtain rfl := some.inj h
      refine hs.goto p ?_
      split <;> trivial
    · cases h
  | checkUsers p =>
    simp only [step] at h
    split at h
    · split at h
      · cases h
      · rename_i hall
        split at h
        · rename_i husers
          obtain rfl := some.inj h
          exact hs.goto p (sound_shareReady (by simpa using hall) husers)
        · obtain rfl := some.inj h
          exact hs.goto p trivial
    · cases h
  | commitShare p =>
    simp only [step] at h
    split at h
    · split at h
      · rename_i hall
        obtain rfl := some.inj h
        exact hs.writeShare p _ fun _ _ _ => Or.inl hall
      · cases h
    · rename_i c seen hp
      obtain rfl := some.inj h
      obtain ⟨-, -, husers⟩ : (Phase.shareReady c seen).Sound cat s.tables := hp ▸ hs.sound p
      exact hs.writeShare p c fun l hl hi => Or.inr (husers (ha c seen hp) l hl hi)
    · cases h
  | link p c =>
    simp only [step] at h
    split at h
    · split at h
      · obtain rfl := some.inj h
        exact hs.goto p trivial
      · rename_i hok
        obtain rfl := some.inj h
        simp only [not_or, not_not] at hok
        exact hs.goto p ⟨fun e he => all_eq_true.mp hok.2.2 e he, fun i _ => ⟨le_rfl, by simp⟩⟩
    · cases h
  | readSets p =>
    simp only [step] at h
    split at h
    · rename_i hp
      obtain rfl := some.inj h
      exact hs.goto p (Phase.Sound.readSets (hp ▸ hs.sound p))
    · cases h
  | readShares p =>
    simp only [step] at h
    split at h
    · rename_i hp
      obtain rfl := some.inj h
      exact hs.goto p (Phase.Sound.readShares (hp ▸ hs.sound p))
    · cases h
  | decide p referencesResolve =>
    simp only [step] at h
    split at h
    · rename_i hp
      split at h
      · obtain rfl := some.inj h
        exact hs.goto p trivial
      · rename_i hany
        split at h
        · obtain rfl := some.inj h
          exact hs.goto p trivial
        · obtain rfl := some.inj h
          exact hs.goto p (Phase.Sound.linkReady (hp ▸ hs.sound p) hany)
    · cases h
  | commitLinks p =>
    simp only [step] at h
    split at h
    · rename_i c seen hp
      obtain rfl := some.inj h
      obtain ⟨hex, hsound⟩ : (Phase.linkReady c seen).Sound cat s.tables := hp ▸ hs.sound p
      refine hs.writeLinks p c fun e he => ?_
      obtain ⟨i, hi⟩ := isSome_iff_exists.mp (hex e he)
      have hiset := mem_setsOf he hi
      exact ⟨i, hi, (hsound i hiset).2 (ha c seen hp i hiset)⟩
    · cases h

/-- No request has been made yet. -/
def initial (t : Tables) : State := ⟨t, fun _ => .idle⟩

/-- **Links stay shared, as long as no write of the other side comes between a
check and its own write.**  Any number of share calls and link updates of any
owners and sets. -/
theorem linksShared_of_undisturbed (cat : Catalog) (t : Tables) (ht : t.LinksShared cat)
    (acts : List Action) (hc : Runs.Meets (step cat) (Undisturbed cat) (initial t) acts)
    (s : State) (hs : Runs.exec (step cat) (initial t) acts = some s) :
    s.tables.LinksShared cat := by
  have hinit : Inv cat (initial t) := ⟨ht, fun _ => trivial⟩
  exact (Runs.exec_invariant (fun _ _ _ hinv ha hstep => step_inv hinv ha hstep) acts _ s
    hinit hc hs).linksShared

/-! ## Two clients on one set

Environment 1 belongs to set 1, which is shared with project 3 only; application
7 belongs to project 3. -/

def oneSet : Catalog where
  setOf e := if e = 1 then some 1 else none
  isProtected _ := false
  projectOf _ := 3
  projectExists _ := true

def sharedOnce : Tables := ⟨fun _ => false, [(1, 3)], [], fun _ => 0, fun _ => 0⟩

def linkIt : LinkCall := ⟨⟨.application, 7⟩, [1], none⟩

/-- Request 1 takes the set away from every project. -/
def unshareIt : ShareCall := ⟨1, false, []⟩

/-- The link is saved first, so the share is refused. -/
def linkThenUnshare : List Action :=
  [.link 0 linkIt, .readSets 0, .readShares 0, .decide 0 true, .commitLinks 0,
    .share 1 unshareIt, .checkUsers 1]

theorem linksShared_linkThenUnshare :
    ∃ s, Runs.exec (step oneSet) (initial sharedOnce) linkThenUnshare = some s ∧
      s.tables.LinksShared oneSet :=
  ⟨_, rfl, linksShared_of_undisturbed oneSet sharedOnce (by simp [Tables.LinksShared, sharedOnce])
    linkThenUnshare (by
      simp [linkThenUnshare, Runs.Meets, Undisturbed, step, initial, State.goto, linkIt, sharedOnce,
        oneSet, maxLinks, setsOf, environmentIdsFor, roleRefuses]) _ rfl⟩

/-- The share is checked and saved between the validation of the link and its
save: the link names a set that is shared with nobody. -/
theorem unshared_link :
    ∃ s, Runs.exec (step oneSet) (initial sharedOnce)
        [.link 0 linkIt, .readSets 0, .readShares 0, .decide 0 true, .share 1 unshareIt,
          .checkUsers 1, .commitShare 1, .commitLinks 0] = some s ∧
      ¬ s.tables.LinksShared oneSet := by
  refine ⟨_, rfl, fun h => ?_⟩
  obtain ⟨i, hi, hsh⟩ := h ⟨⟨.application, 7⟩, 1, 0⟩ (by decide)
  have hi1 : i = 1 := by simpa [oneSet] using hi.symm
  subst hi1
  rcases hsh with hsh | hsh
  · exact absurd hsh (by decide)
  · exact absurd hsh (by decide)

end Aoox.Sharing
