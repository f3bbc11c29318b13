import Aoox.StoredText
import Aoox.Runs
import Mathlib.Data.List.Sort

/-! # Environments of a variable set

`VariableSetEnvironmentService`: an environment is one row (the encrypted text
and, next to it, its names, flags and notes) and a history of versions.  Every
way of changing the variables (`update`, `restoreVersion`, `promote`) ends in
`transact`, which locks the row, compares `updatedAt` and calls `commit`.

The database supplies three things that the code does not choose: `updated_at`
is the start of the writing transaction, a version's `created_at` is the clock
when it is inserted, and ids are fresh.  Both times are in microseconds; what
the code reads as a `Date` is cut to milliseconds.

The second half is the transition system of any number of clients.  A row lock
is held until the transaction ends, so checking, writing and committing are one
step; everything a client does before (revealing, reading the source of a
promotion, opening its transaction) is a step of its own, and other clients
come in between.
-/
namespace Aoox.Environments

open JsString Option

/-! ## Rows -/

/-- How a version was written. -/
inductive VersionVia where
  | session | token | system
deriving Repr

inductive VersionAction where
  | edit | set | unset | push | restore | promote | baseline
deriving Repr

/-- Who makes a change. -/
structure EnvActor where
  userId : JsString
  email : Option JsString
  via : VersionVia
deriving Repr

/-- One saved state of an environment's variables.  The encrypted column is given
by what decrypting it yields; `none` is null. -/
structure Version where
  id : Nat
  variablesEncrypted : Option JsString
  secretFlags : SecretFlags
  notes : VariableNotes
  (authorId authorEmail : Option JsString)
  via : VersionVia
  action : VersionAction
  detail : Option JsString
  summary : ChangeSummary
  createdAt : Nat
deriving Repr

structure Row where
  name : JsString
  variablesEncrypted : Option JsString
  keys : List JsString
  secretFlags : SecretFlags
  notes : VariableNotes
  updatedAt : Nat
deriving Repr

/-- An environment with its versions, in no particular order. -/
structure Environment where
  row : Row
  versions : List Version
deriving Repr

def Version.text (v : Version) : JsString := v.variablesEncrypted.getD []

def Environment.text (env : Environment) : JsString := env.row.variablesEncrypted.getD []

/-- `updatedAt.getTime()`. -/
def Environment.token (env : Environment) : Nat := env.row.updatedAt / 1000

/-- `text.trim() ? encryptSecret(text) : null`, and what decrypting gives back. -/
def sealText (text : JsString) : Option JsString :=
  if trim text = [] then none else some (wellFormed text)

/-- Flags as a JSON column keeps them: `JSON.stringify` leaves functions out. -/
def toJson (flags : SecretFlags) : SecretFlags := flags.filter fun e => e.2 ≠ .other

/-- A string a JSON column accepts: no NUL, no lone surrogate. -/
def jsonAccepts (s : JsString) : Bool := wellFormed s = s && !s.contains 0

/-- The names and notes of a text fit the JSON columns. -/
def storable (text : JsString) : Bool :=
  (keysOf text).all jsonAccepts && (extractNotes text).all fun e => jsonAccepts e.2

/-! ## Versions -/

/-- `ORDER BY created_at DESC, id DESC`. -/
def newerOrSame (v w : Version) : Prop :=
  w.createdAt < v.createdAt ∨ w.createdAt = v.createdAt ∧ w.id ≤ v.id

instance : DecidableRel newerOrSame := fun v w =>
  inferInstanceAs (Decidable (w.createdAt < v.createdAt ∨ w.createdAt = v.createdAt ∧ w.id ≤ v.id))

def ENV_VERSION_KEEP : Nat := 50

def newestFirst (versions : List Version) : List Version := versions.insertionSort newerOrSame

/-- The versions the `DELETE` leaves. -/
def prune (versions : List Version) : List Version := (newestFirst versions).take ENV_VERSION_KEEP

/-- The version shown as current. -/
def newest (versions : List Version) : Option Version := (newestFirst versions).head?

/-! ## Writing -/

/-- Why a request ends without a write. -/
inductive Refusal where
  | badRequest (message : JsString)
  | notFound (message : JsString)
  | conflict (message : JsString)
  | internalError
deriving Repr

/-- What the database supplies to one transaction: its start, the clock at the
insert of the version, and fresh ids. -/
structure Stamp where
  (start clock id baselineId : Nat)
deriving Repr

/-- Who changes what, for the history. -/
structure CommitContext where
  actor : EnvActor
  action : VersionAction
  detail : Option JsString
deriving Repr

def sameFlags (a b : SecretFlags) : Bool :=
  a.length = b.length && a.all fun e => readProp a e.1 = readProp b e.1

/-- The content before the first recorded change. -/
def baselineOf (env : Environment) (db : Stamp) : Version where
  id := db.baselineId
  variablesEncrypted := some (wellFormed env.text)
  secretFlags := toJson env.row.secretFlags
  notes := extractNotes env.text
  authorId := none
  authorEmail := none
  via := .system
  action := .baseline
  detail := some (js "Content before the first recorded change")
  summary := ⟨keysOf env.text, [], [], []⟩
  createdAt := env.token * 1000

def versionOf (env : Environment) (text : JsString) (flags : SecretFlags) (ctx : CommitContext)
    (db : Stamp) : Version where
  id := db.id
  variablesEncrypted := sealText text
  secretFlags := toJson flags
  notes := extractNotes text
  authorId := some ctx.actor.userId
  authorEmail := ctx.actor.email
  via := ctx.actor.via
  action := ctx.action
  detail := ctx.detail
  summary := summarizeChange env.text text env.row.secretFlags flags
  createdAt := db.clock

/-- The versions a write inserts. -/
def inserted (env : Environment) (text : JsString) (flags : SecretFlags) (ctx : CommitContext)
    (db : Stamp) : List Version :=
  versionOf env text flags ctx db ::
    if env.versions.length = 0 ∧ trim env.text ≠ [] then [baselineOf env db] else []

/-- A write that really changes something. -/
def isChange (env : Environment) (text : JsString) (flags : SecretFlags) : Bool :=
  normalizeText env.text ≠ normalizeText text || !sameFlags env.row.secretFlags flags

def savedRow (env : Environment) (text : JsString) (flags : SecretFlags) (db : Stamp) : Row where
  name := env.row.name
  variablesEncrypted := sealText text
  keys := keysOf text
  secretFlags := toJson flags
  notes := extractNotes text
  updatedAt := db.start

/-- Saves text and flags on the locked row and, when something really changed,
stores a version (with a baseline when it is the first) and prunes old ones. -/
def commit (env : Environment) (text : JsString) (flagPatch : SecretFlags) (ctx : CommitContext)
    (db : Stamp) : Except Refusal Environment :=
  let flags := nextFlags env.row.secretFlags env.row.keys (keysOf text) flagPatch
  -- the database refuses a JSON value it cannot store, and an id that is taken
  if !storable text then .error .internalError
  else if isChange env text flags then
    if ¬ ((inserted env text flags ctx db ++ env.versions).map Version.id).Nodup then
      .error .internalError
    else .ok ⟨savedRow env text flags db,
      prune (inserted env text flags ctx db ++ env.versions)⟩
  else .ok ⟨savedRow env text flags db, env.versions⟩

/-- `patch[k] = flags[k] ?? null` for each key. -/
def patchOf (flags : SecretFlags) (keys : List JsString) : SecretFlags :=
  keys.foldl (fun patch k => assign patch k ((readProp flags k).getD .null)) []

/-- What `promote` carries from its source into the target. -/
structure Promotion where
  source : Nat
  sourceName : JsString
  flags : SecretFlags
  values : List (JsString × JsString)
  notes : VariableNotes
  keys : List JsString
deriving Repr

/-- The three ways of changing the variables. -/
inductive Change where
  | edit (text : JsString) (patch : SecretFlags) (action : VersionAction)
  | restore (versionId : Nat)
  | promote (p : Promotion)
deriving Repr

/-- The callback of `restoreVersion`. -/
def restoreVersion (env : Environment) (versionId : Nat) (actor : EnvActor) (db : Stamp) :
    Except Refusal Environment :=
  match env.versions.find? fun v => v.id = versionId with
  | none => .error (.notFound (js "Version not found"))
  | some v =>
    match validateEnvironmentText v.text with
    | some problem =>
      .error (.badRequest (js "This version no longer passes validation: " ++ problem))
    | none =>
      let patch := patchOf v.secretFlags (keysOf v.text)
      if normalizeText v.text = normalizeText env.text ∧
          sameFlags env.row.secretFlags (nextFlags [] [] (keysOf v.text) patch) then
        .error (.badRequest (js "This version is already the current content"))
      else
        commit env v.text patch ⟨actor, .restore,
          some (js "Restored the version of " ++ toISOString (v.createdAt / 1000))⟩ db

/-- The callback of `promote`. -/
def promote (env : Environment) (p : Promotion) (actor : EnvActor) (db : Stamp) :
    Except Refusal Environment :=
  match setValues env.text (p.keys.map fun k => (k, (Assoc.get p.values k).getD [])) p.notes with
  | none => .error .internalError
  | some text =>
    match validateEnvironmentText text with
    | some problem =>
      .error (.badRequest (js "Cannot promote into \"" ++ env.row.name ++ js "\": " ++ problem))
    | none =>
      commit env text (patchOf p.flags p.keys) ⟨actor, .promote,
        some (js "From " ++ p.sourceName)⟩ db

/-- What runs under the row lock. -/
def applyChange (env : Environment) (change : Change) (actor : EnvActor) (db : Stamp) :
    Except Refusal Environment :=
  match change with
  | .edit text patch action => commit env text patch ⟨actor, action, none⟩ db
  | .restore versionId => restoreVersion env versionId actor db
  | .promote p => promote env p actor db

/-- `expectedUpdatedAt` as `new Date(...).getTime()` reads it. -/
inductive Expected where
  | omitted
  | invalid
  | time (ms : Int)
deriving Repr

structure Write where
  env : Nat
  expected : Expected
  change : Change
  actor : EnvActor
deriving Repr

def changedMessage (name : JsString) : JsString :=
  js "The \"" ++ name ++ js "\" environment was changed by someone else; reload it and try again"

/-- `transact`: the optimistic check on the locked row, then the change. -/
def transact (env : Environment) (w : Write) (db : Stamp) : Except Refusal Environment :=
  match w.expected with
  | .invalid => .error (.badRequest (js "expectedUpdatedAt is not a valid date"))
  | .omitted => applyChange env w.change w.actor db
  | .time ms =>
    if (env.token : Int) ≠ ms then .error (.conflict (changedMessage env.row.name))
    else applyChange env w.change w.actor db

/-! ## Creating -/

/-- `create`: a new environment is empty. -/
def create (name : JsString) (time : Nat) : Environment := ⟨⟨name, none, [], [], [], time⟩, []⟩

/-- The flag patch of `sealImported`. -/
def importPatch (secretKeys plainKeys : List JsString) : SecretFlags :=
  plainKeys.foldl (fun patch k => assign patch k (.bool false))
    (secretKeys.foldl (fun patch k => assign patch k (.bool true)) [])

/-- An environment from an import file; `none` when normalizing its text throws
or the database refuses the row. -/
def sealImported (name text : JsString) (secretKeys plainKeys : List JsString) (time : Nat) :
    Option Environment := do
  let text := rewriteProjectReferences (← normalizeEnvText text)
  if text.length > ENV_TEXT_MAX then some (create name time)
  else if !storable text then none
  else some ⟨⟨name, if text = [] then none else some (wellFormed text), keysOf text,
    toJson (nextFlags [] [] (keysOf text) (importPatch secretKeys plainKeys)),
    extractNotes text, time⟩, []⟩

/-! ## Clients -/

/-- What a client has revealed: the row (its `updatedAt` in milliseconds), then
the text, in two queries. -/
inductive Reveal where
  | nothing
  | row (env token : Nat)
  | shown (env token : Nat) (text : JsString)
deriving Repr

/-- A promotion as requested. -/
structure PromoteCall where
  (target source : Nat)
  keys : List JsString
  expected : Expected
  actor : EnvActor
deriving Repr

/-- Where a client stands with its write.  `seen` counts the commits of the
source when `promote` read its row; the code has no such number. -/
inductive Phase where
  | idle
  | promoting (c : PromoteCall) (sourceName : JsString) (flags : SecretFlags) (seen : Nat)
  | asked (w : Write)
  | opened (w : Write) (start : Nat)
deriving Repr

/-- Text and flags an environment held in one committed state. -/
structure Content where
  text : JsString
  flags : SecretFlags
deriving Repr

def Environment.content (env : Environment) : Content := ⟨env.text, env.row.secretFlags⟩

/-- The tables and the clients.  `committed` lists every content an environment
ever had, newest first: a history the database does not keep. -/
structure State where
  envs : Nat → Option Environment
  committed : Nat → List Content
  reveals : Nat → Reveal
  phase : Nat → Phase

inductive Action where
  | create (e : Nat) (name : JsString) (time : Nat)
  | importEnv (e : Nat) (name text : JsString) (secretKeys plainKeys : List JsString)
      (time : Nat)
  | revealRow (p e : Nat)
  | revealText (p : Nat)
  | update (p : Nat) (w : Write) (text : JsString) (patch : SecretFlags) (action : VersionAction)
  | restore (p : Nat) (w : Write) (versionId : Nat)
  | promote (p : Nat) (c : PromoteCall)
  | readSource (p : Nat)
  | beginTx (p : Nat) (start : Nat)
  | commit (p : Nat) (clock id baselineId : Nat)
  | abort (p : Nat)

/-- A committed write of the row. -/
def State.put (s : State) (e : Nat) (env : Environment) : State :=
  { s with
    envs := Function.update s.envs e (some env)
    committed := Function.update s.committed e (env.content :: s.committed e) }

/-- An environment after a write is the written one or one from before. -/
theorem State.envs_put {s : State} {e e' : Nat} {env env' : Environment}
    (h : (s.put e env).envs e' = some env') : (e' = e ∧ env' = env) ∨ s.envs e' = some env' := by
  by_cases he : e' = e
  · subst he
    simp only [State.put, Function.update_self] at h
    exact Or.inl ⟨rfl, (some.inj h).symm⟩
  · simp only [State.put, Function.update_of_ne he] at h
    exact Or.inr h

def State.setReveal (s : State) (p : Nat) (r : Reveal) : State :=
  { s with reveals := Function.update s.reveals p r }

def State.goto (s : State) (p : Nat) (ph : Phase) : State :=
  { s with phase := Function.update s.phase p ph }

/-- A request has been answered. -/
def State.finish (s : State) (p : Nat) : State := (s.goto p .idle).setReveal p .nothing

/-- `assertFlagPatch`. -/
def flagPatchAccepted (patch : SecretFlags) (keys : List JsString) : Bool :=
  (patch.all fun e => isEnvName e.1 && e.2 ≠ .other) && patch.all fun e => e.1 ∈ keys

/-- `promote` behind the second read of the source. -/
def promotionOf (c : PromoteCall) (sourceName : JsString) (flags : SecretFlags)
    (sourceText : JsString) : Option Promotion :=
  let values := envMap sourceText
  if c.keys.eraseDups.any fun k => (Assoc.get values k).isNone then none
  else some ⟨c.source, sourceName, flags, values, extractNotes sourceText, c.keys.eraseDups⟩

/-- The write a client's transaction makes, if it is accepted. -/
def accepted (s : State) (p clock id baselineId : Nat) : Option (Nat × Environment) :=
  match s.phase p with
  | .opened w start =>
    match s.envs w.env with
    | some env =>
      match transact env w ⟨start, clock, id, baselineId⟩ with
      | .ok env' => some (w.env, env')
      | .error _ => none
    | none => none
  | _ => none

/-- One step; `none` when the action cannot be taken.  A refused request ends
without a write. -/
def step (s : State) : Action → Option State
  | .create e name time =>
    if (s.envs e).isNone then some (s.put e (Environments.create name time)) else none
  | .importEnv e name text secretKeys plainKeys time =>
    if (s.envs e).isNone then
      (sealImported name text secretKeys plainKeys time).map (s.put e)
    else none
  | .revealRow p e => (s.envs e).map fun env => s.setReveal p (.row e env.token)
  | .revealText p =>
    match s.reveals p with
    | .row e token => (s.envs e).map fun env => s.setReveal p (.shown e token env.text)
    | _ => none
  | .update p w text patch action =>
    match s.phase p with
    | .idle =>
      if (validateEnvironmentText text).isSome || !flagPatchAccepted patch (keysOf text) then
        some (s.finish p)
      else some (s.goto p (.asked { w with change := .edit text patch action }))
    | _ => none
  | .restore p w versionId =>
    match s.phase p with
    | .idle => some (s.goto p (.asked { w with change := .restore versionId }))
    | _ => none
  | .promote p c =>
    match s.phase p with
    | .idle =>
      if c.source = c.target ∨ c.keys = [] then some (s.finish p)
      else (s.envs c.source).map fun env => s.goto p
        (.promoting c env.row.name env.row.secretFlags (s.committed c.source).length)
    | _ => none
  | .readSource p =>
    match s.phase p with
    | .promoting c sourceName flags _ =>
      (s.envs c.source).map fun env =>
        match promotionOf c sourceName flags env.text with
        | some promotion => s.goto p (.asked ⟨c.target, c.expected, .promote promotion, c.actor⟩)
        | none => s.finish p
    | _ => none
  | .beginTx p start =>
    match s.phase p with
    | .asked w => some (s.goto p (.opened w start))
    | _ => none
  | .commit p clock id baselineId =>
    match s.phase p with
    | .opened _ _ =>
      match accepted s p clock id baselineId with
      | some (e, env) => some ((s.put e env).finish p)
      | none => some (s.finish p)
    | _ => none
  | .abort p => some (s.finish p)

/-! ## What a step does -/

def New (env : Environment) : Prop :=
  (∃ name time, env = create name time) ∨
    ∃ name text secretKeys plainKeys time,
      sealImported name text secretKeys plainKeys time = some env

/-- Everything a step can do to the state. -/
inductive Effect (s : State) : Action → State → Prop where
  | fresh {a e env} (hnone : s.envs e = none) (hnew : New env) : Effect s a (s.put e env)
  | revealRow {p e env} (he : s.envs e = some env) :
      Effect s (.revealRow p e) (s.setReveal p (.row e env.token))
  | revealText {p e token env} (hr : s.reveals p = .row e token) (he : s.envs e = some env) :
      Effect s (.revealText p) (s.setReveal p (.shown e token env.text))
  | ask {a p w} (hw : ∀ promotion, w.change ≠ .promote promotion) : Effect s a (s.goto p (.asked w))
  | promote {p c env} (he : s.envs c.source = some env) :
      Effect s (.promote p c) (s.goto p
        (.promoting c env.row.name env.row.secretFlags (s.committed c.source).length))
  | readSource {p c sourceName flags seen env promotion}
      (hp : s.phase p = .promoting c sourceName flags seen) (he : s.envs c.source = some env)
      (hpr : promotionOf c sourceName flags env.text = some promotion) :
      Effect s (.readSource p)
        (s.goto p (.asked ⟨c.target, c.expected, .promote promotion, c.actor⟩))
  | beginTx {p start w} (hp : s.phase p = .asked w) :
      Effect s (.beginTx p start) (s.goto p (.opened w start))
  | write {p clock id baselineId w start env env'} (hp : s.phase p = .opened w start)
      (he : s.envs w.env = some env) (hw : transact env w ⟨start, clock, id, baselineId⟩ = .ok env') :
      Effect s (.commit p clock id baselineId) ((s.put w.env env').finish p)
  | finish {a p} : Effect s a (s.finish p)

theorem accepted_eq {s : State} {p clock id baselineId e : Nat} {env' : Environment}
    (h : accepted s p clock id baselineId = some (e, env')) :
    ∃ w start env, s.phase p = .opened w start ∧ w.env = e ∧ s.envs e = some env ∧
      transact env w ⟨start, clock, id, baselineId⟩ = .ok env' := by
  rw [accepted] at h
  split at h
  · rename_i w start hp
    split at h
    · rename_i env he
      split at h
      · rename_i env'' hw
        obtain ⟨rfl, rfl⟩ := Prod.mk.inj (some.inj h)
        exact ⟨w, start, env, hp, rfl, he, hw⟩
      · cases h
    · cases h
  · cases h

/-- **Every step has one of these effects.** -/
theorem step_effect {s s' : State} {a : Action} (h : step s a = some s') : Effect s a s' := by
  cases a with
  | create e name time =>
    simp only [step] at h
    split at h
    · rename_i hnone
      obtain rfl := some.inj h
      exact .fresh (isNone_iff_eq_none.mp hnone) (.inl ⟨name, time, rfl⟩)
    · cases h
  | importEnv e name text secretKeys plainKeys time =>
    simp only [step] at h
    split at h
    · rename_i hnone
      obtain ⟨env, henv, rfl⟩ := map_eq_some_iff.mp h
      exact .fresh (isNone_iff_eq_none.mp hnone) (.inr ⟨_, _, _, _, _, henv⟩)
    · cases h
  | revealRow p e =>
    obtain ⟨env, he, rfl⟩ := map_eq_some_iff.mp h
    exact .revealRow he
  | revealText p =>
    simp only [step] at h
    split at h
    · rename_i e token hr
      obtain ⟨env, he, rfl⟩ := map_eq_some_iff.mp h
      exact .revealText hr he
    · cases h
  | update p w text patch action =>
    simp only [step] at h
    split at h
    · split at h
      · obtain rfl := some.inj h
        exact .finish
      · obtain rfl := some.inj h
        exact .ask (by simp)
    · cases h
  | restore p w versionId =>
    simp only [step] at h
    split at h
    · obtain rfl := some.inj h
      exact .ask (by simp)
    · cases h
  | promote p c =>
    simp only [step] at h
    split at h
    · split at h
      · obtain rfl := some.inj h
        exact .finish
      · obtain ⟨env, he, rfl⟩ := map_eq_some_iff.mp h
        exact .promote he
    · cases h
  | readSource p =>
    simp only [step] at h
    split at h
    · rename_i c sourceName flags seen hp
      obtain ⟨env, he, rfl⟩ := map_eq_some_iff.mp h
      cases hpr : promotionOf c sourceName flags env.text with
      | some promotion => exact .readSource hp he hpr
      | none => exact .finish
    · cases h
  | beginTx p start =>
    simp only [step] at h
    split at h
    · rename_i w hp
      obtain rfl := some.inj h
      exact .beginTx hp
    · cases h
  | commit p clock id baselineId =>
    simp only [step] at h
    split at h
    · split at h
      · rename_i e env' hacc
        obtain rfl := some.inj h
        obtain ⟨w, start, env, hp, rfl, he, hw⟩ := accepted_eq hacc
        exact .write hp he hw
      · obtain rfl := some.inj h
        exact .finish
    · cases h
  | abort p =>
    obtain rfl := some.inj h
    exact .finish

/-- No environment and no client yet. -/
def initial : State := ⟨fun _ => none, fun _ => [], fun _ => .nothing, fun _ => .idle⟩

end Aoox.Environments
