import Aoox.Promotion

/-! # Restoring a version

`restoreVersion` writes an old version's text and flags as a new version.  The flags go through a
patch: `true`, `false` or, for an unmarked variable, `null`, which clears the flag the environment
has now.  The flags of the version are read as properties of an object, though, so a name every
object inherits is never unmarked: the patch holds a function for it, which sets and clears
nothing, and the flag of the environment stays.

Where that does not happen a restore is exact whatever the flags and names were before
(`restored_iff`): `nextFlags` comes to the same as on an empty environment, which is what the
check for the current content compares with, so a restore that gets through always records a
version.
-/
open List Option
namespace Aoox.Environments

open JsString

/-! ## What a restore promises -/

/-- The environment holds what the version held, and one new version behind it. -/
structure Restored (v : Version) (env env' : Environment) : Prop where
  text : normalizeText env'.text = normalizeText v.text
  flags : ∀ k, Assoc.get env'.row.secretFlags k = Assoc.get v.secretFlags k
  keys : env'.row.keys = keysOf v.text
  notes : env'.row.notes = extractNotes v.text
  version : ∃ new : Version, newest env'.versions = some new ∧
    env'.versions = prune (new :: env.versions) ∧ new.id ∉ env.versions.map Version.id ∧
    new.content.Same v.content ∧ new.action = .restore

/-- An inherited name of the version's text that the version leaves unmarked while the
environment marks it. -/
def KeepsMark (v : Version) (env : Environment) : Prop :=
  ∃ k ∈ keysOf v.text, k ∈ objectPrototype ∧ Assoc.get v.secretFlags k = none ∧
    Assoc.get env.row.secretFlags k ≠ none

/-- All versions are older than one inserted at that time under that id. -/
def NewestAt (env : Environment) (clock id : Nat) : Prop :=
  ∀ w ∈ env.versions, w.createdAt < clock ∨ w.createdAt = clock ∧ w.id < id

instance (v : Version) (env : Environment) : Decidable (KeepsMark v env) :=
  inferInstanceAs (Decidable (∃ k ∈ keysOf v.text, k ∈ objectPrototype ∧
    Assoc.get v.secretFlags k = none ∧ Assoc.get env.row.secretFlags k ≠ none))

instance (env : Environment) (clock id : Nat) : Decidable (NewestAt env clock id) :=
  inferInstanceAs (Decidable (∀ w ∈ env.versions, w.createdAt < clock ∨
    w.createdAt = clock ∧ w.id < id))

/-! ## What the table holds -/

/-- A text and flags as they are stored together. -/
structure Content.Sound (c : Content) : Prop extends c.Stored where
  marked : ∀ k, (Assoc.get c.flags k).isSome = true → k ∈ keysOf c.text

/-- An environment whose row and versions are. -/
structure Kept (env : Environment) : Prop where
  row : env.content.Sound
  versions : ∀ v ∈ env.versions, v.content.Sound

theorem storedFlags_toJson {flags : SecretFlags} (h : StoredFlags flags) :
    StoredFlags (toJson flags) := by
  refine ⟨nodup_toJson h.nodup, fun k v hv => ?_, ?_⟩
  · rw [get_toJson_stored h] at hv
    exact h.bool k v hv
  · rw [get_toJson_stored h]
    exact h.proto

variable {text : JsString}

theorem sound_next (hst : storable text = true) {previous : SecretFlags} (h : StoredFlags previous)
    (previousKeys : List JsString) (patch : SecretFlags) :
    Content.Sound ⟨storedText text, toJson (nextFlags previous previousKeys (keysOf text) patch)⟩ := by
  refine ⟨⟨wellFormed_storedText text, storedFlags_next h _ _ _⟩, fun k hk => ?_⟩
  show k ∈ keysOf (storedText text)
  rw [keysOf_storedText hst]
  exact mem_of_flagged hk

variable {env env' : Environment} {db : Stamp}

variable {patch : SecretFlags} {ctx : CommitContext}

theorem kept_commit (hk : Kept env) (h : commit env text patch ctx db = .ok env') : Kept env' := by
  obtain ⟨hst, hrow, hver⟩ := commit_ok h
  have hsound := sound_next hst hk.row.flags env.row.keys patch
  refine ⟨content_savedRow hrow ▸ hsound, fun v hv => ?_⟩
  rcases hver with ⟨-, hver⟩ | ⟨-, hver⟩
  · rw [hver] at hv
    rcases mem_append.mp (mem_newestFirst.mp (mem_of_mem_take hv)) with hv | hv
    · rcases mem_cons.mp hv with rfl | hv
      · exact hsound
      · split at hv
        · -- the baseline is the row before the first change
          rw [mem_singleton.mp hv]
          have htext : (baselineOf env db).text = env.text := hk.row.text
          refine ⟨⟨?_, storedFlags_toJson hk.row.flags⟩, fun k hm => ?_⟩
          · exact (congrArg wellFormed htext).trans (hk.row.text.trans htext.symm)
          · show k ∈ keysOf (baselineOf env db).text
            rw [htext]
            refine hk.row.marked k ?_
            rw [← get_toJson_stored hk.row.flags]
            exact hm
        · cases hv
    · exact hk.versions v hv
  · rw [hver] at hv
    exact hk.versions v hv

theorem kept_new (h : New env) : Kept env := by
  obtain ⟨hs, hc⟩ := new_ok h
  refine ⟨⟨⟨hs.text, hs.flags⟩, fun k hk => hc.flags k (Assoc.get_isSome_iff.mp hk)⟩, ?_⟩
  have hnil : env.versions = [] := by
    rcases h with ⟨name, time, rfl⟩ | ⟨name, text, secretKeys, plainKeys, time, h⟩
    · rfl
    · obtain ⟨normalized, -, h⟩ := bind_eq_some_iff.mp h
      simp only at h
      split at h
      · exact some.inj h ▸ rfl
      · split at h
        · cases h
        · exact some.inj h ▸ rfl
  rw [hnil]
  intro v hv
  cases hv

theorem kept_step {s s' : State} {a : Action} (hs : ∀ e env, s.envs e = some env → Kept env)
    (h : step s a = some s') : ∀ e env, s'.envs e = some env → Kept env := by
  cases step_effect h with
  | fresh _ hnew =>
    intro e env he
    rcases State.envs_put he with ⟨-, rfl⟩ | hold
    · exact kept_new hnew
    · exact hs e env hold
  | write hp he₀ hw =>
    intro e env he
    obtain ⟨text, patch, ctx, hcommit⟩ := transact_ok hw
    rcases State.envs_put he with ⟨-, rfl⟩ | hold
    · exact kept_commit (hs _ _ he₀) hcommit
    · exact hs e env hold
  | _ => exact hs

theorem kept_of_run (acts : List Action) (s : State)
    (h : Runs.exec step initial acts = some s) : ∀ e env, s.envs e = some env → Kept env :=
  Runs.exec_keeps (fun _ _ _ hs hstep => kept_step hs hstep) acts _ s (by simp [initial]) h

/-! ## The patch of a restore -/

/-- The flags a restore writes. -/
def restoredFlags (v : Version) (env : Environment) : SecretFlags :=
  nextFlags env.row.secretFlags env.row.keys (keysOf v.text) (patchOf v.secretFlags (keysOf v.text))

variable {v : Version}

/-- **With no mark to keep, the flags now and the names now do not matter.** -/
theorem restoredFlags_eq (hv : StoredFlags v.secretFlags) (henv : StoredFlags env.row.secretFlags)
    (h : ¬ KeepsMark v env) :
    restoredFlags v env =
      nextFlags [] [] (keysOf v.text) (patchOf v.secretFlags (keysOf v.text)) := by
  have hnext : ∀ k ∈ keysOf v.text,
      nextFlag env.row.secretFlags env.row.keys (patchOf v.secretFlags (keysOf v.text)) k =
        nextFlag [] [] (patchOf v.secretFlags (keysOf v.text)) k := by
    intro k hk
    rw [nextFlag, nextFlag, get_patchOf]
    by_cases hp : k = js "__proto__"
    · -- `__proto__` is in no patch and in no flags, and its value is inherited
      have hinh : js "__proto__" ∈ objectPrototype := by simp [objectPrototype]
      simp [hp, readProp, henv.proto, hinh]
    · rw [if_pos ⟨hk, hp⟩]
      cases hown : Assoc.get v.secretFlags k with
      | some f =>
        obtain ⟨b, rfl⟩ := hv.bool k f hown
        simp [readProp, hown]
      | none =>
        by_cases hinh : k ∈ objectPrototype
        · have hnone : Assoc.get env.row.secretFlags k = none := by
            by_contra hne
            exact h ⟨k, hk, hinh, hown, hne⟩
          simp [readProp, hown, hinh, hnone]
        · simp [readProp, hown, hinh]
  rw [restoredFlags, nextFlags, nextFlags]
  refine foldl_ext _ _ _ fun out k hk => ?_
  rw [nextFlagStep, nextFlagStep, hnext k hk]

theorem get_restoredFlags (hv : v.content.Sound) (h : ¬ KeepsMark v env) (k : JsString) :
    Assoc.get (toJson (restoredFlags v env)) k = Assoc.get v.secretFlags k := by
  by_cases hk : k ∈ keysOf v.text
  · refine get_promoted_flag hv.flags hk hk fun hinh hnone => ?_
    by_contra hne
    exact h ⟨k, hk, hinh, hnone, hne⟩
  · have hleft : Assoc.get (toJson (restoredFlags v env)) k = none := by
      by_contra hne
      exact hk (mem_of_flagged (isSome_iff_ne_none.mpr hne))
    have hright : Assoc.get v.secretFlags k = none := by
      by_contra hne
      exact hk (hv.marked k (isSome_iff_ne_none.mpr hne))
    rw [hleft, hright]

/-- An inherited name that is unmarked in the version keeps its flag. -/
theorem keeps_restoredFlags (henv : StoredFlags env.row.secretFlags) (h : KeepsMark v env) :
    ∃ k, Assoc.get (toJson (restoredFlags v env)) k ≠ Assoc.get v.secretFlags k := by
  obtain ⟨k, hk, hinh, hnone, hne⟩ := h
  obtain ⟨f, hf⟩ := ne_none_iff_exists'.mp hne
  obtain ⟨b, rfl⟩ := henv.bool k f hf
  have hp : k ≠ js "__proto__" := fun he => hne (he ▸ henv.proto)
  refine ⟨k, ?_⟩
  rw [restoredFlags, get_toJson (nodup_nextFlags _ _ _ _), get_nextFlags, if_pos ⟨hk, hp⟩, nextFlag,
    get_patchOf, if_pos ⟨hk, hp⟩]
  simp [readProp, hnone, hinh, hf, Option.filter]

/-! ## The place of the new version -/

instance : IsTrans Version newerOrSame where
  trans u v w huv hvw := by
    rw [newerOrSame] at *
    omega

instance : Std.Total newerOrSame where
  total v w := by
    rw [newerOrSame, newerOrSame]
    omega

theorem newest_prune_eq (vs : List Version) : newest (prune vs) = newest vs := by
  have hsorted : (prune vs).Pairwise newerOrSame :=
    (pairwise_insertionSort newerOrSame vs).sublist (take_sublist _ _)
  rw [newest, newestFirst, hsorted.insertionSort_eq, prune, List.head?_take]
  rfl

/-- A new version is shown as the current one exactly when all others are older. -/
theorem newest_iff {new : Version} {vs : List Version} (hid : new.id ∉ vs.map Version.id) :
    newest (prune (new :: vs)) = some new ↔
      ∀ w ∈ vs, w.createdAt < new.createdAt ∨ w.createdAt = new.createdAt ∧ w.id < new.id := by
  rw [newest_prune_eq, newest]
  constructor
  · intro h w hw
    obtain ⟨rest, hrest⟩ := List.head?_eq_some_iff.mp h
    have hne : w.id ≠ new.id := fun he => hid (he ▸ mem_map_of_mem hw)
    have hmem : w ∈ new :: rest := by
      rw [← hrest]
      exact mem_newestFirst.mpr (mem_cons_of_mem _ hw)
    have hsorted : (new :: rest).Pairwise newerOrSame := by
      rw [← hrest]
      exact pairwise_insertionSort newerOrSame _
    rcases mem_cons.mp hmem with rfl | hmem
    · exact absurd rfl hne
    · have hle := rel_of_pairwise_cons hsorted hmem
      rw [newerOrSame] at hle
      omega
  · intro h
    have hcons : newestFirst (new :: vs) = new :: newestFirst vs :=
      insertionSort_cons_of_forall_rel _ fun w hw => by
        have := h w hw
        show w.createdAt < new.createdAt ∨ w.createdAt = new.createdAt ∧ w.id ≤ new.id
        omega
    rw [hcons]
    rfl

/-! ## One restore -/

variable {versionId : Nat} {actor : EnvActor}

/-- **What a restore that gets through does.** -/
theorem restoreVersion_ok (hv : env.versions.find? (fun v => v.id = versionId) = some v)
    (h : restoreVersion env versionId actor db = .ok env') :
    let ctx : CommitContext := ⟨actor, .restore,
      some (js "Restored the version of " ++ toISOString (v.createdAt / 1000))⟩
    ¬ (normalizeText v.text = normalizeText env.text ∧ sameFlags env.row.secretFlags
        (nextFlags [] [] (keysOf v.text) (patchOf v.secretFlags (keysOf v.text))) = true) ∧
      commit env v.text (patchOf v.secretFlags (keysOf v.text)) ctx db = .ok env' := by
  rw [restoreVersion, hv] at h
  simp only at h
  split at h
  · cases h
  · split at h
    · cases h
    · rename_i hsame
      exact ⟨hsame, h⟩

theorem normalizeText_stored (h : wellFormed text = text) :
    normalizeText (storedText text) = normalizeText text :=
  normalizeText_storedText h rfl

/-- What a write that changes something inserts behind a history is one version, under an id
that is new. -/
theorem inserted_versions (hne : env.versions ≠ []) (h : commit env text patch ctx db = .ok env')
    (hch : isChange env text
      (nextFlags env.row.secretFlags env.row.keys (keysOf text) patch) = true) :
    let new := versionOf env text
      (nextFlags env.row.secretFlags env.row.keys (keysOf text) patch) ctx db
    env'.versions = prune (new :: env.versions) ∧ new.id ∉ env.versions.map Version.id := by
  intro new
  have hins : inserted env text (nextFlags env.row.secretFlags env.row.keys (keysOf text) patch) ctx
      db ++ env.versions = new :: env.versions := by
    rw [inserted, if_neg fun h => hne (length_eq_zero_iff.mp h.1)]
    rfl
  rw [commit] at h
  simp only [hch, if_true] at h
  split at h
  · cases h
  · rw [hins] at h
    split at h
    · cases h
    · rename_i hnodup
      obtain rfl := Except.ok.inj h
      rw [not_not, map_cons, nodup_cons] at hnodup
      exact ⟨rfl, hnodup.1⟩

/-- With no mark to keep, what gets through the check for the current content is a change. -/
theorem isChange_restored (hv : StoredFlags v.secretFlags) (henv : StoredFlags env.row.secretFlags)
    (hkeep : ¬ KeepsMark v env)
    (hguard : ¬ (normalizeText v.text = normalizeText env.text ∧ sameFlags env.row.secretFlags
      (nextFlags [] [] (keysOf v.text) (patchOf v.secretFlags (keysOf v.text))) = true)) :
    isChange env v.text (restoredFlags v env) = true := by
  rw [restoredFlags_eq hv henv hkeep, isChange, Bool.or_eq_true_iff, decide_eq_true_iff,
    Bool.not_eq_true']
  by_contra hno
  obtain ⟨htext, hflags⟩ := not_or.mp hno
  exact hguard ⟨(not_not.mp htext).symm, Bool.eq_true_of_not_eq_false hflags⟩

/-- **A restore is exact when it has no mark to keep and no version is newer.** -/
theorem restored_of_ok (hk : Kept env)
    (hv : env.versions.find? (fun v => v.id = versionId) = some v)
    (h : restoreVersion env versionId actor db = .ok env') :
    Restored v env env' ↔ ¬ KeepsMark v env ∧ NewestAt env db.clock db.id := by
  have hmem : v ∈ env.versions := List.mem_of_find?_eq_some hv
  have hne : env.versions ≠ [] := ne_nil_of_mem hmem
  have hsound := hk.versions v hmem
  obtain ⟨hguard, hcommit⟩ := restoreVersion_ok hv h
  obtain ⟨hst, hrow, hver⟩ := commit_ok hcommit
  have hcontent : env'.content = ⟨storedText v.text, toJson (restoredFlags v env)⟩ :=
    content_savedRow hrow
  have hflags : env'.row.secretFlags = toJson (restoredFlags v env) :=
    congrArg Content.flags hcontent
  constructor
  · intro hr
    have hkeep : ¬ KeepsMark v env := by
      intro hkeeps
      obtain ⟨k, hdiff⟩ := keeps_restoredFlags hk.row.flags hkeeps
      exact hdiff (hflags ▸ hr.flags k)
    obtain ⟨hprune, hid⟩ := inserted_versions hne hcommit
      (isChange_restored hsound.flags hk.row.flags hkeep hguard)
    obtain ⟨new, hnewest, -, hnew, -⟩ := hr.version
    rw [hprune] at hnewest
    -- the new version is not one from before, so it is the one inserted
    have hin := mem_newestFirst.mp (List.mem_of_head? ((newest_prune_eq _).symm.trans hnewest))
    rcases mem_cons.mp hin with rfl | hin
    · exact ⟨hkeep, (newest_iff hid).mp hnewest⟩
    · exact absurd (mem_map_of_mem hin) hnew
  · rintro ⟨hkeep, hnewest⟩
    obtain ⟨hprune, hid⟩ := inserted_versions hne hcommit
      (isChange_restored hsound.flags hk.row.flags hkeep hguard)
    have hsame : Content.Same ⟨storedText v.text, toJson (restoredFlags v env)⟩ v.content :=
      ⟨normalizeText_stored hsound.text, get_restoredFlags hsound hkeep⟩
    refine ⟨?_, ?_, ?_, ?_, _, ?_, hprune, hid, hsame, rfl⟩
    · exact (congrArg (normalizeText ∘ Content.text) hcontent).trans hsame.text
    · intro k
      rw [hflags]
      exact hsame.flags k
    · rw [hrow]
      rfl
    · rw [hrow]
      rfl
    · rw [hprune]
      exact (newest_iff hid).mpr hnewest

/-! ## Over every run -/

variable {w : Write}

theorem restore_of_transact (hw : w.change = .restore versionId)
    (h : transact env w db = .ok env') : restoreVersion env versionId w.actor db = .ok env' := by
  rw [transact] at h
  simp only [applyChange, hw] at h
  split at h
  · cases h
  · exact h
  · split at h
    · cases h
    · exact h

/-- A commit writes its environment and leaves all others. -/
theorem step_commit {s : State} {p clock id baselineId start e : Nat}
    (hp : s.phase p = .opened w start) (hacc : accepted s p clock id baselineId = some (e, env')) :
    step s (.commit p clock id baselineId) = some ((s.put e env').finish p) := by
  simp only [step, hp, hacc]

/-- **After every history a successful restore is exact if and only if** no inherited name that is
unmarked in the version is marked now, and no version is newer than the new one. -/
theorem restored_iff (acts : List Action) (s : State) (hs : Runs.exec step initial acts = some s)
    (p start clock id baselineId versionId : Nat) (w : Write) (env env' : Environment) (v : Version)
    (hp : s.phase p = .opened w start) (hw : w.change = .restore versionId)
    (he : s.envs w.env = some env)
    (hv : env.versions.find? (fun v => v.id = versionId) = some v)
    (hacc : accepted s p clock id baselineId = some (w.env, env')) :
    ∃ s', step s (.commit p clock id baselineId) = some s' ∧ s'.envs w.env = some env' ∧
      ((Restored v env env' ∧ ∀ e, e ≠ w.env → s'.envs e = s.envs e) ↔
        ¬ KeepsMark v env ∧ NewestAt env clock id) := by
  have hkept := kept_of_run acts s hs _ _ he
  have htransact : transact env w ⟨start, clock, id, baselineId⟩ = .ok env' := by
    obtain ⟨w', start', env₀, hp', -, he', htransact⟩ := accepted_eq hacc
    obtain ⟨rfl, rfl⟩ := Phase.opened.inj (hp'.symm.trans hp)
    obtain rfl := Option.some.inj (he'.symm.trans he)
    exact htransact
  have hiff := restored_of_ok hkept hv (restore_of_transact hw htransact)
  refine ⟨_, step_commit hp hacc, Function.update_self _ _ _, ?_⟩
  rw [← hiff]
  exact ⟨And.left, fun hr => ⟨hr, fun e hne => Function.update_of_ne hne _ _⟩⟩

/-! ## An inherited name -/

/-- The text `constructor=1` unmarked, then marked, then a restore of the unmarked version. -/
def markedLater : List Action :=
  [.create 0 (js "staging") 1000000,
    .update 1 ⟨0, .omitted, .restore 0, owner⟩ (js "constructor=1") [] .edit, .beginTx 1 2000000,
    .commit 1 2000400 7 8,
    .update 1 ⟨0, .omitted, .restore 0, owner⟩ (js "constructor=1")
      [(js "constructor", .bool true)] .edit,
    .beginTx 1 3000000, .commit 1 3000400 9 10,
    .restore 1 ⟨0, .omitted, .restore 0, owner⟩ 7, .beginTx 1 4000000]

/-- The restore succeeds, the mark stays and no version is added. -/
theorem restore_keeps_mark :
    ∃ s env env' v w, Runs.exec step initial markedLater = some s ∧ s.phase 1 = .opened w 4000000 ∧
      w.change = .restore 7 ∧ s.envs 0 = some env ∧
      env.versions.find? (fun v => v.id = 7) = some v ∧
      accepted s 1 4000400 11 12 = some (0, env') ∧
      Assoc.get v.secretFlags (js "constructor") = none ∧
      Assoc.get env'.row.secretFlags (js "constructor") = some (.bool true) ∧
      env'.versions = env.versions ∧ ¬ Restored v env env' := by
  refine ⟨_, _, _, _, _, rfl, rfl, rfl, rfl, rfl, rfl, rfl, rfl, rfl, fun h => ?_⟩
  exact absurd (h.flags (js "constructor")) (by decide)

/-- `A=1`, then `B=2`, then a restore of the first. -/
def changedLater : List Action :=
  .create 0 (js "staging") 1000000 :: editRun 1 (js "A=1") 2000000 2000400 7 8 ++
    editRun 1 (js "B=2") 3000000 3000400 9 10 ++
    [.restore 1 ⟨0, .omitted, .restore 0, owner⟩ 7, .beginTx 1 4000000]

theorem restored_changedLater :
    ∃ s s' env env' v, Runs.exec step initial changedLater = some s ∧
      step s (.commit 1 4000400 11 12) = some s' ∧ s.envs 0 = some env ∧ s'.envs 0 = some env' ∧
      Restored v env env' ∧ v.text = js "A=1" := by
  obtain ⟨s', hstep, hs', hiff⟩ := restored_iff changedLater _ rfl 1 4000000 4000400 11 12 7 _ _ _ _
    rfl rfl rfl rfl rfl
  exact ⟨_, s', _, _, _, rfl, hstep, rfl, hs', (hiff.mpr (by decide)).1, rfl⟩

end Aoox.Environments
