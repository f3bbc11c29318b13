import Aoox.VariableSetEnvironment

/-! # The columns and the history of an environment stay in step

Names, flags and notes are stored beside the text, and the history beside the
row.  One write decides them all from the new text, so they agree after every
accepted write whatever came before (`Consistent`).  The newest version is the
current content as long as the clock has moved on since the last write: versions
are ordered by time, and ids only break ties.
-/
open List Option
namespace Aoox.Environments

open JsString

/-! ## Flags -/

theorem get_foldl_nextFlagStep (previous : SecretFlags) (previousKeys : List JsString)
    (patch : SecretFlags) (keys : List JsString) (out : SecretFlags) (k : JsString) :
    Assoc.get (keys.foldl (nextFlagStep previous previousKeys patch) out) k =
      if k ∈ keys ∧ k ≠ js "__proto__" then
        (nextFlag previous previousKeys patch k).or (Assoc.get out k)
      else Assoc.get out k := by
  induction keys generalizing out with
  | nil => simp
  | cons key keys ih =>
    have hstep : Assoc.get (nextFlagStep previous previousKeys patch out key) k =
        if k = key ∧ k ≠ js "__proto__" then
          (nextFlag previous previousKeys patch k).or (Assoc.get out k)
        else Assoc.get out k := by
      rw [nextFlagStep]
      cases hnext : nextFlag previous previousKeys patch key with
      | none =>
        by_cases hk : k = key
        · simp [hk, hnext]
        · simp [hk]
      | some v =>
        simp only [assign]
        split
        · rename_i hp
          by_cases hk : k = key
          · simp [hk, hp]
          · simp [hk]
        · rename_i hp
          rw [Assoc.get_set]
          by_cases hk : k = key
          · subst hk
            simp [hp, hnext]
          · simp [hk, Ne.symm hk]
    rw [foldl_cons, ih, hstep]
    by_cases hp : k = js "__proto__"
    · simp [hp]
    · by_cases hk : k = key
      · subst hk
        cases nextFlag previous previousKeys patch k <;> simp [hp]
      · simp [hk, hp]

theorem get_nextFlags (previous : SecretFlags) (previousKeys keys : List JsString)
    (patch : SecretFlags) (k : JsString) :
    Assoc.get (nextFlags previous previousKeys keys patch) k =
      if k ∈ keys ∧ k ≠ js "__proto__" then nextFlag previous previousKeys patch k else none := by
  rw [nextFlags, get_foldl_nextFlagStep]
  simp

theorem nodup_nextFlags (previous : SecretFlags) (previousKeys keys : List JsString)
    (patch : SecretFlags) : ((nextFlags previous previousKeys keys patch).map Prod.fst).Nodup := by
  have hfold : ∀ out : SecretFlags, (out.map Prod.fst).Nodup →
      ((keys.foldl (nextFlagStep previous previousKeys patch) out).map Prod.fst).Nodup := by
    induction keys with
    | nil => exact fun out h => h
    | cons key keys ih =>
      intro out h
      refine ih _ ?_
      rw [nextFlagStep]
      split
      · rw [assign]
        split
        · exact h
        · exact Assoc.nodup_set h _ _
      · exact h
  exact hfold [] nodup_nil

/-- Flags as a JSON column holds them. -/
structure StoredFlags (flags : SecretFlags) : Prop where
  nodup : (flags.map Prod.fst).Nodup
  bool : ∀ k v, Assoc.get flags k = some v → ∃ b, v = .bool b
  proto : Assoc.get flags (js "__proto__") = none

variable {flags : SecretFlags}

theorem get_toJson (h : (flags.map Prod.fst).Nodup) (k : JsString) :
    Assoc.get (toJson flags) k = (Assoc.get flags k).filter fun v => v ≠ .other :=
  Assoc.get_filter h (fun v => v ≠ .other) k

theorem nodup_toJson (h : (flags.map Prod.fst).Nodup) : ((toJson flags).map Prod.fst).Nodup :=
  h.sublist (filter_sublist.map Prod.fst)

variable {previous patch : SecretFlags} {previousKeys : List JsString}

/-- What a key can be flagged with: a boolean, or a member it only inherits. -/
theorem nextFlag_eq (h : StoredFlags previous) {k : JsString} {v : FlagValue}
    (hv : nextFlag previous previousKeys patch k = some v) : v = .other ∨ ∃ b, v = .bool b := by
  have hread : ∀ {v}, readProp previous k = some v → v = .other ∨ ∃ b, v = .bool b := by
    intro v hv
    rw [readProp] at hv
    cases hown : Assoc.get previous k with
    | some w =>
      rw [hown] at hv
      exact .inr (some.inj hv ▸ h.bool k w hown)
    | none =>
      rw [hown, none_or] at hv
      split at hv
      · exact .inl (some.inj hv).symm
      · cases hv
  rw [nextFlag] at hv
  split at hv
  · exact .inr ⟨_, (some.inj hv).symm⟩
  · cases hv
  · split at hv
    · rename_i w hw
      exact some.inj hv ▸ hread hw
    · split at hv
      · exact .inr ⟨_, (some.inj hv).symm⟩
      · cases hv

theorem storedFlags_next (h : StoredFlags previous) (previousKeys keys : List JsString)
    (patch : SecretFlags) : StoredFlags (toJson (nextFlags previous previousKeys keys patch)) := by
  have hnodup := nodup_nextFlags previous previousKeys keys patch
  refine ⟨nodup_toJson hnodup, fun k v hv => ?_, ?_⟩
  · rw [get_toJson hnodup, filter_eq_some_iff, get_nextFlags] at hv
    obtain ⟨hv, hne⟩ := hv
    split at hv
    · rcases nextFlag_eq h hv with rfl | hb
      · simp at hne
      · exact hb
    · cases hv
  · rw [get_toJson hnodup, get_nextFlags]
    simp

theorem mem_of_flagged {previous : SecretFlags} {previousKeys keys : List JsString}
    {patch : SecretFlags} {k : JsString}
    (h : (Assoc.get (toJson (nextFlags previous previousKeys keys patch)) k).isSome) : k ∈ keys := by
  rw [get_toJson (nodup_nextFlags _ _ _ _), get_nextFlags] at h
  by_contra hk
  simp [hk] at h

/-- Flags that compare as the same are the same map. -/
theorem get_eq_of_sameFlags {a b : SecretFlags} (ha : StoredFlags a)
    (h : sameFlags a b = true) (k : JsString) :
    Assoc.get b k = Assoc.get a k := by
  rw [sameFlags, Bool.and_eq_true_iff, decide_eq_true_iff] at h
  obtain ⟨hlen, hall⟩ := h
  -- every own flag of `a` is an own flag of `b`
  have hsub : ∀ k v, Assoc.get a k = some v → Assoc.get b k = some v := by
    intro k v hv
    have hread := of_decide_eq_true (all_eq_true.mp hall _ (Assoc.mem_of_get hv))
    obtain ⟨x, rfl⟩ := ha.bool k v hv
    simp only [readProp, hv, some_or] at hread
    cases hown : Assoc.get b k with
    | some w => rw [hown] at hread; simpa using hread.symm
    | none =>
      rw [hown] at hread
      split at hread <;> simp at hread
  cases hv : Assoc.get a k with
  | some v => exact hsub k v hv
  | none =>
    -- as many keys as `a`, so there is no other key
    have hsubset : a.map Prod.fst ⊆ b.map Prod.fst := by
      intro x hx
      obtain ⟨v, hv⟩ := isSome_iff_exists.mp (Assoc.get_isSome_iff.mpr hx)
      exact Assoc.get_isSome_iff.mp (by simp [hsub x v hv])
    have hperm : (a.map Prod.fst).Perm (b.map Prod.fst) :=
      (subperm_of_subset ha.nodup hsubset).perm_of_length_le (by simp [hlen])
    exact Assoc.get_eq_none_iff.mpr fun hk =>
      Assoc.get_eq_none_iff.mp hv (hperm.mem_iff.mpr hk)

/-! ## Stored text -/

/-- What the encrypted column gives back. -/
def storedText (text : JsString) : JsString := (sealText text).getD []

theorem storedText_eq (text : JsString) :
    storedText text = if trim text = [] then [] else wellFormed text := by
  rw [storedText, sealText]
  split <;> rfl

theorem wellFormed_storedText (text : JsString) :
    wellFormed (storedText text) = storedText text := by
  rw [storedText_eq]
  split
  · rfl
  · exact wellFormed_wellFormed text

theorem jsonAccepts_wellFormed {s : JsString} (h : jsonAccepts s = true) : wellFormed s = s :=
  of_decide_eq_true (Bool.and_eq_true_iff.mp h).1

variable {text : JsString}

theorem storable_keys (h : storable text = true) {k : JsString}
    (hk : k ∈ keysOf text) : wellFormed k = k :=
  jsonAccepts_wellFormed (all_eq_true.mp (Bool.and_eq_true_iff.mp h).1 k hk)

theorem storable_notes (h : storable text = true) {e : JsString × JsString}
    (he : e ∈ extractNotes text) : wellFormed e.2 = e.2 :=
  jsonAccepts_wellFormed (all_eq_true.mp (Bool.and_eq_true_iff.mp h).2 e he)

theorem keysOf_storedText (h : storable text = true) : keysOf (storedText text) = keysOf text := by
  rw [storedText_eq]
  split
  · rename_i hb
    rw [keysOf_blank hb, keysOf_blank rfl]
  · exact keysOf_wellFormed fun k hk => storable_keys h hk

theorem extractNotes_storedText (h : storable text = true) :
    extractNotes (storedText text) = extractNotes text := by
  rw [storedText_eq]
  split
  · rename_i hb
    rw [extractNotes_blank hb, extractNotes_blank rfl]
  · exact extractNotes_wellFormed fun e he => storable_notes h he

/-- A text that does not differ from a stored one is stored without difference. -/
theorem normalizeText_storedText {old : JsString} (hold : wellFormed old = old)
    (h : normalizeText old = normalizeText text) :
    normalizeText (storedText text) = normalizeText old := by
  rw [storedText_eq]
  split
  · rename_i hb
    rw [h, normalizeText_blank hb, normalizeText_blank rfl]
  · rw [normalizeText_wellFormed, ← h, ← normalizeText_wellFormed, hold]

/-! ## One write -/

variable {env env' : Environment} {ctx : CommitContext} {db : Stamp}

/-- **What an accepted `commit` does.** -/
theorem commit_ok (h : commit env text patch ctx db = .ok env') :
    let flags := nextFlags env.row.secretFlags env.row.keys (keysOf text) patch
    storable text = true ∧ env'.row = savedRow env text flags db ∧ (isChange env text flags = true ∧
          env'.versions = prune (inserted env text flags ctx db ++ env.versions) ∨
        isChange env text flags = false ∧ env'.versions = env.versions) := by
  intro flags
  rw [commit] at h
  split at h
  · cases h
  rename_i hst
  replace hst : storable text = true := by simpa using hst
  split at h
  · rename_i hch
    split at h
    · cases h
    · obtain rfl := Except.ok.inj h
      exact ⟨hst, rfl, .inl ⟨hch, rfl⟩⟩
  · rename_i hch
    obtain rfl := Except.ok.inj h
    exact ⟨hst, rfl, .inr ⟨by simpa using hch, rfl⟩⟩

/-- **Every accepted write is a `commit`.** -/
theorem transact_ok {w : Write} (h : transact env w db = .ok env') :
    ∃ text patch ctx, commit env text patch ctx db = .ok env' := by
  have happly : applyChange env w.change w.actor db = .ok env' := by
    rw [transact] at h
    split at h
    · cases h
    · exact h
    · split at h
      · cases h
      · exact h
  cases hw : w.change with
  | edit text patch action =>
    rw [hw] at happly
    exact ⟨_, _, _, happly⟩
  | restore versionId =>
    rw [hw, applyChange, restoreVersion] at happly
    split at happly
    · cases happly
    · split at happly
      · cases happly
      · simp only at happly
        split at happly
        · cases happly
        · exact ⟨_, _, _, happly⟩
  | promote p =>
    rw [hw, applyChange, promote] at happly
    split at happly
    · cases happly
    · split at happly
      · cases happly
      · exact ⟨_, _, _, happly⟩

def Version.content (v : Version) : Content := ⟨v.text, v.secretFlags⟩

/-- The same variables: the text up to line endings and trailing blanks, and the
same flag on every key. -/
structure Content.Same (c d : Content) : Prop where
  text : normalizeText c.text = normalizeText d.text
  flags : ∀ k, Assoc.get c.flags k = Assoc.get d.flags k

/-- What the columns of a row always are. -/
structure Stored (env : Environment) : Prop where
  text : wellFormed env.text = env.text
  flags : StoredFlags env.row.secretFlags

/-- The columns and the history agree with the text. -/
structure Consistent (env : Environment) : Prop where
  keys : env.row.keys = keysOf env.text
  flags : ∀ k ∈ env.row.secretFlags.map Prod.fst, k ∈ keysOf env.text
  notes : env.row.notes = extractNotes env.text
  newest : ∀ v, newest env.versions = some v → env.content.Same v.content
  count : env.versions.length ≤ ENV_VERSION_KEEP

theorem stored_commit (hs : Stored env)
    (h : commit env text patch ctx db = .ok env') : Stored env' := by
  obtain ⟨-, hrow, -⟩ := commit_ok h
  refine ⟨?_, ?_⟩
  · rw [Environment.text, hrow]
    exact wellFormed_storedText text
  · rw [hrow]
    exact storedFlags_next hs.flags _ _ _

/-! ## The history of one write -/

/-- The clock has moved on since everything recorded on the environment. -/
structure Later (env : Environment) (clock : Nat) : Prop where
  row : env.row.updatedAt < clock
  versions : ∀ v ∈ env.versions, v.createdAt < clock

variable {v : Version} {vs : List Version}

/-- A version inserted later than all others comes first. -/
theorem newestFirst_cons
    (h : ∀ w ∈ vs, w.createdAt < v.createdAt) : newestFirst (v :: vs) = v :: newestFirst vs :=
  insertionSort_cons_of_forall_rel _ fun w hw => .inl (h w hw)

theorem prune_cons (h : ∀ w ∈ vs, w.createdAt < v.createdAt) :
    prune (v :: vs) = v :: (newestFirst vs).take (ENV_VERSION_KEEP - 1) := by
  rw [prune, newestFirst_cons h]
  rfl

theorem mem_newestFirst : v ∈ newestFirst vs ↔ v ∈ vs := mem_insertionSort _

/-- Everything a write inserts beside its own version is older. -/
theorem older_of_later (h : Later env db.clock) :
    ∃ rest, inserted env text flags ctx db ++ env.versions = versionOf env text flags ctx db :: rest ∧
      (∀ w ∈ rest, w.createdAt < db.clock) ∧ (∀ v ∈ env.versions, v ∈ rest) ∧
      (env.versions = [] → trim env.text ≠ [] → rest = [baselineOf env db]) ∧
      (env.versions ≠ [] → rest = env.versions) := by
  have hbase : (baselineOf env db).createdAt < db.clock := by
    have hrow := h.row
    simp only [baselineOf, Environment.token]
    omega
  refine ⟨_, rfl, fun w hw => ?_, fun v hv => mem_append_right _ hv, ?_, ?_⟩
  · rcases mem_append.mp hw with hw | hw
    · split at hw
      · rw [mem_singleton.mp hw]
        exact hbase
      · cases hw
    · exact h.versions w hw
  · intro hnil hblank
    simp [hnil, hblank]
  · intro hne
    simp [hne]

theorem newest_prune
    (h : ∀ w ∈ vs, w.createdAt < v.createdAt) : newest (prune (v :: vs)) = some v := by
  rw [prune_cons h, newest, newestFirst_cons fun w hw =>
    h w (mem_newestFirst.mp (mem_of_mem_take hw))]
  rfl

theorem length_prune_le (vs : List Version) : (prune vs).length ≤ ENV_VERSION_KEEP :=
  length_take_le _ _

theorem get_toJson_stored (h : StoredFlags flags) (k : JsString) :
    Assoc.get (toJson flags) k = Assoc.get flags k := by
  rw [get_toJson h.nodup]
  cases hv : Assoc.get flags k with
  | none => rfl
  | some v =>
    obtain ⟨b, rfl⟩ := h.bool k v hv
    simp [Option.filter]

theorem Content.Same.trans {c d e : Content} (h : c.Same d) (h' : d.Same e) : c.Same e :=
  ⟨h.text.trans h'.text, fun k => (h.flags k).trans (h'.flags k)⟩

/-- A write that records no version leaves the content as it was. -/
theorem same_of_not_isChange {env : Environment} (hs : Stored env) {text : JsString}
    {previousKeys : List JsString} {patch : SecretFlags}
    (h : isChange env text (nextFlags env.row.secretFlags previousKeys (keysOf text) patch) = false) :
    Content.Same ⟨storedText text,
      toJson (nextFlags env.row.secretFlags previousKeys (keysOf text) patch)⟩ env.content := by
  rw [isChange, Bool.or_eq_false_iff, decide_eq_false_iff_not, not_not, Bool.not_eq_false'] at h
  refine ⟨normalizeText_storedText hs.text h.1, fun k => ?_⟩
  have hget := get_eq_of_sameFlags hs.flags h.2 k
  rw [get_toJson (nodup_nextFlags _ _ _ _), hget, ← get_toJson hs.flags.nodup]
  exact get_toJson_stored hs.flags k

theorem content_savedRow (h : env'.row = savedRow env text flags db) :
    env'.content = ⟨storedText text, toJson flags⟩ := by
  rw [Environment.content, Environment.text, h]
  rfl

/-- **One accepted write brings every column and the newest version in step.** -/
theorem consistent_commit (hs : Stored env) (hc : Consistent env) (hlater : Later env db.clock)
    (h : commit env text patch ctx db = .ok env') : Consistent env' := by
  obtain ⟨hst, hrow, hver⟩ := commit_ok h
  have hcontent := content_savedRow hrow
  have htext : env'.text = storedText text := congrArg Content.text hcontent
  constructor
  · rw [htext, keysOf_storedText hst, hrow]
    rfl
  · intro k hk
    rw [htext, keysOf_storedText hst]
    rw [hrow] at hk
    exact mem_of_flagged (Assoc.get_isSome_iff.mpr hk)
  · rw [htext, extractNotes_storedText hst, hrow]
    rfl
  · intro v hv
    rw [hcontent]
    rcases hver with ⟨-, hver⟩ | ⟨hch, hver⟩
    · obtain ⟨rest, hsplit, holder, -⟩ := older_of_later hlater
      rw [hver, hsplit, newest_prune holder] at hv
      obtain rfl := some.inj hv
      exact ⟨rfl, fun _ => rfl⟩
    · rw [hver] at hv
      exact (same_of_not_isChange hs hch).trans (hc.newest v hv)
  · rcases hver with ⟨-, hver⟩ | ⟨-, hver⟩
    · rw [hver]
      exact length_prune_le _
    · rw [hver]
      exact hc.count

/-- The content before a write is one of the versions behind it. -/
def Recorded (env env' : Environment) : Prop :=
  ∃ v ∈ env'.versions, env.content.Same v.content ∧ (env.versions = [] → v.text = env.text)

/-- **A change of a non-blank text leaves the old content in the history.** -/
theorem recorded_commit (hs : Stored env) (hc : Consistent env) (hlater : Later env db.clock)
    (h : commit env text patch ctx db = .ok env') (hchanged : ¬ env'.content.Same env.content)
    (hblank : trim env.text ≠ []) : Recorded env env' := by
  obtain ⟨hst, hrow, hver⟩ := commit_ok h
  rcases hver with ⟨-, hver⟩ | ⟨hch, -⟩
  · obtain ⟨rest, hsplit, holder, -, hfirst, hlater'⟩ := older_of_later hlater
    rw [Recorded, hver, hsplit, prune_cons holder]
    by_cases hnil : env.versions = []
    · -- the first recorded change stores the old content as the baseline
      rw [hfirst hnil hblank]
      have htext : (baselineOf env db).text = env.text := hs.text
      exact ⟨baselineOf env db, by simp [newestFirst, ENV_VERSION_KEEP],
        ⟨congrArg normalizeText htext.symm, fun k => (get_toJson_stored hs.flags k).symm⟩,
        fun _ => htext⟩
    · -- otherwise the newest version was the old content, and stays as the second
      rw [hlater' hnil]
      have hne : newestFirst env.versions ≠ [] := fun he => hnil <| by
        rw [eq_nil_iff_forall_not_mem] at he ⊢
        exact fun v hv => he v (mem_newestFirst.mpr hv)
      obtain ⟨v, vs, hvs⟩ := exists_cons_of_ne_nil hne
      refine ⟨v, by simp [hvs, ENV_VERSION_KEEP], hc.newest v (by simp [newest, hvs]), ?_⟩
      exact fun he => absurd he hnil
  · exact absurd (content_savedRow hrow ▸ same_of_not_isChange hs hch) hchanged

/-! ## New environments -/

theorem storedFlags_nil : StoredFlags [] := ⟨nodup_nil, by simp, rfl⟩

theorem stored_create (name : JsString) (time : Nat) : Stored (create name time) :=
  ⟨rfl, storedFlags_nil⟩

theorem consistent_create (name : JsString) (time : Nat) : Consistent (create name time) :=
  ⟨rfl, by simp [create], rfl, by simp [create, newest, newestFirst], by simp [create]⟩

theorem new_ok (h : New env) : Stored env ∧ Consistent env := by
  rcases h with ⟨name, time, rfl⟩ | ⟨name, text, secretKeys, plainKeys, time, h⟩
  · exact ⟨stored_create name time, consistent_create name time⟩
  · obtain ⟨normalized, -, h⟩ := bind_eq_some_iff.mp h
    simp only at h
    split at h
    · obtain rfl := some.inj h
      exact ⟨stored_create name time, consistent_create name time⟩
    split at h
    · cases h
    · rename_i hst
      replace hst : storable (rewriteProjectReferences normalized) = true := by simpa using hst
      generalize rewriteProjectReferences normalized = imported at h hst
      have htext : env.text = wellFormed imported := by
        rw [← some.inj h, Environment.text]
        by_cases hnil : imported = []
        · simp [hnil, wellFormed]
        · simp [hnil]
      have hkeys := keysOf_wellFormed fun k hk => storable_keys hst hk
      refine ⟨⟨by rw [htext, wellFormed_wellFormed], ?_⟩, ⟨?_, ?_, ?_, ?_, ?_⟩⟩
      · rw [← some.inj h]
        exact storedFlags_next storedFlags_nil _ _ _
      · rw [htext, hkeys, ← some.inj h]
      · intro k hk
        rw [htext, hkeys]
        rw [← some.inj h] at hk
        exact mem_of_flagged (Assoc.get_isSome_iff.mpr hk)
      · rw [htext, extractNotes_wellFormed fun e he => storable_notes hst he, ← some.inj h]
      · rw [← some.inj h]
        simp [newest, newestFirst]
      · rw [← some.inj h]
        simp

/-! ## Runs -/

/-- Every write finds the clock later than all it finds recorded. -/
def ClockMoves (s : State) : Action → Prop
  | .commit p clock id baselineId => ∀ e env env',
      accepted s p clock id baselineId = some (e, env') → s.envs e = some env → Later env clock
  | _ => True

structure Inv (s : State) : Prop where
  stored : ∀ e env, s.envs e = some env → Stored env
  consistent : ∀ e env, s.envs e = some env → Consistent env

variable {s : State}

theorem accepted_of {p clock id baselineId start : Nat} {w : Write}
    (hp : s.phase p = .opened w start) (he : s.envs w.env = some env)
    (hw : transact env w ⟨start, clock, id, baselineId⟩ = .ok env') :
    accepted s p clock id baselineId = some (w.env, env') := by
  simp [accepted, hp, he, hw]

theorem Inv.put (hs : Inv s) {e : Nat} (hst : Stored env)
    (hc : Consistent env) : Inv (s.put e env) := by
  constructor
  · intro e' env' he'
    rcases State.envs_put he' with ⟨-, rfl⟩ | hold
    · exact hst
    · exact hs.stored e' env' hold
  · intro e' env' he'
    rcases State.envs_put he' with ⟨-, rfl⟩ | hold
    · exact hc
    · exact hs.consistent e' env' hold

/-- **Every step under a moving clock keeps the environments in step.** -/
theorem step_inv {s' : State} {a : Action} (hs : Inv s) (ha : ClockMoves s a)
    (h : step s a = some s') : Inv s' := by
  cases step_effect h with
  | fresh _ hnew => exact hs.put (new_ok hnew).1 (new_ok hnew).2
  | @write p clock id baselineId w start env env' hp he hw =>
    obtain ⟨text, patch, ctx, hcommit⟩ := transact_ok hw
    have hlater := ha _ _ _ (accepted_of hp he hw) he
    have hput := hs.put (e := w.env) (stored_commit (hs.stored _ _ he) hcommit)
      (consistent_commit (hs.stored _ _ he) (hs.consistent _ _ he) hlater hcommit)
    exact ⟨hput.stored, hput.consistent⟩
  | _ => exact ⟨hs.stored, hs.consistent⟩

theorem inv_initial : Inv initial := ⟨by simp [initial], by simp [initial]⟩

/-- **Columns and history stay in step over every run**, as long as each write
finds the clock moved on; and a step that changes a non-blank text leaves the
content it replaced among the versions. -/
theorem consistent_of_run (acts : List Action) (s : State)
    (hc : Runs.Meets step ClockMoves initial acts) (hs : Runs.exec step initial acts = some s) :
    (∀ e env, s.envs e = some env → Consistent env) ∧
      ∀ a s', ClockMoves s a → step s a = some s' → ∀ e env env', s.envs e = some env →
        s'.envs e = some env' → ¬ env'.content.Same env.content → trim env.text ≠ [] →
        Recorded env env' := by
  have hinv : Inv s := Runs.exec_invariant (fun _ _ _ hinv ha hstep => step_inv hinv ha hstep)
    acts _ s inv_initial hc hs
  refine ⟨hinv.consistent, fun a s' ha hstep e env env' he he' hchanged hblank => ?_⟩
  have hsame : s'.envs e = s.envs e → False := fun heq => by
    rw [heq, he] at he'
    obtain rfl := Option.some.inj he'
    exact hchanged ⟨rfl, fun _ => rfl⟩
  cases step_effect hstep with
  | @fresh _ e₀ env₀ hnone hnew =>
    by_cases hee : e = e₀
    · rw [hee, hnone] at he
      cases he
    · exact (hsame (by simp [State.put, Function.update_of_ne hee])).elim
  | @write p clock id baselineId w start env₀ env₁ hp he₀ hw =>
    by_cases hee : e = w.env
    · subst hee
      obtain rfl : env₀ = env := Option.some.inj (he₀.symm.trans he)
      obtain rfl : env₁ = env' := by
        simpa [State.put, State.finish, State.goto, State.setReveal] using he'
      obtain ⟨text, patch, ctx, hcommit⟩ := transact_ok hw
      exact recorded_commit (hinv.stored _ _ he) (hinv.consistent _ _ he)
        (ha _ _ _ (accepted_of hp he hw) he) hcommit hchanged hblank
    · refine (hsame ?_).elim
      simp [State.put, State.finish, State.goto, State.setReveal, Function.update_of_ne hee]
  | _ => exact (hsame rfl).elim

/-! ## A clock that stands still

One owner writes environment 0, one request after the other. -/

def owner : EnvActor := ⟨js "u1", none, .session⟩

/-- One `update` without an expected time. -/
def editRun (p : Nat) (text : JsString) (start clock id baselineId : Nat) : List Action :=
  [.update p ⟨0, .omitted, .restore 0, owner⟩ text [] .edit, .beginTx p start,
    .commit p clock id baselineId]

/-- The times a run reads from the database clock. -/
def readings (acts : List Action) : List Nat :=
  acts.filterMap fun
    | .create _ _ time => some time
    | .importEnv _ _ _ _ _ time => some time
    | .beginTx _ start => some start
    | .commit _ clock _ _ => some clock
    | _ => none

def twoEdits : List Action :=
  .create 0 (js "staging") 1000000 :: editRun 0 (js "A=1") 2000000 2000400 7 8 ++
    editRun 0 (js "B=2") 3000000 3000400 5 6

/-- The clock condition at a write of environment 0. -/
theorem clockMoves_commit {p clock id baselineId : Nat}
    (hacc : accepted s p clock id baselineId = some (0, env')) (he : s.envs 0 = some env)
    (hlater : Later env clock) : ClockMoves s (.commit p clock id baselineId) := by
  intro e env₁ env₂ hacc₁ he₁
  obtain ⟨rfl, -⟩ := Prod.mk.inj (some.inj (hacc.symm.trans hacc₁))
  exact some.inj (he.symm.trans he₁) ▸ hlater

theorem consistent_twoEdits :
    ∃ s, Runs.exec step initial twoEdits = some s ∧
      ∀ e env, s.envs e = some env → Consistent env := by
  have hmeets : Runs.Meets step ClockMoves initial twoEdits :=
    Runs.meets_cons rfl trivial <| Runs.meets_cons rfl trivial <| Runs.meets_cons rfl trivial <|
      Runs.meets_cons rfl (clockMoves_commit rfl rfl ⟨by decide, by decide⟩) <|
      Runs.meets_cons rfl trivial <| Runs.meets_cons rfl trivial <|
      Runs.meets_cons rfl (clockMoves_commit rfl rfl ⟨by decide, by decide⟩) trivial
  exact ⟨_, rfl, (consistent_of_run twoEdits _ hmeets rfl).1⟩

/-- Two changes within one microsecond, the second with the smaller id. -/
def sameInstant : List Action :=
  .create 0 (js "staging") 1000000 :: editRun 0 (js "A=1") 2000000 2000400 7 8 ++
    editRun 0 (js "B=2") 2000400 2000400 5 6

/-- A write that only adds a newline, then a change. -/
def blankThenChange : List Action :=
  .create 0 (js "staging") 1000000 :: editRun 0 (js "A=1") 2000000 2000400 7 8 ++
    editRun 0 (js "A=1\n") 3000000 3000400 5 6

/-- With the clock standing still between two changes the newest version is not
the current content; and behind a write of blanks only, the text before the next
change is a version up to those blanks, not exactly. -/
theorem newest_not_current :
    (∃ s env v, Runs.exec step initial sameInstant = some s ∧
      (readings sameInstant).Pairwise (· ≤ ·) ∧ s.envs 0 = some env ∧
      newest env.versions = some v ∧ ¬ env.content.Same v.content) ∧
    ∃ s s' env env', Runs.exec step initial blankThenChange = some s ∧
      Runs.exec step s (editRun 0 (js "B=2") 4000000 4000400 9 10) = some s' ∧
      (readings (blankThenChange ++ editRun 0 (js "B=2") 4000000 4000400 9 10)).Pairwise (· < ·) ∧
      s.envs 0 = some env ∧ s'.envs 0 = some env' ∧ trim env.text ≠ [] ∧
      ∀ v ∈ env'.versions, v.text ≠ env.text := by
  refine ⟨⟨_, _, _, rfl, by decide, rfl, rfl, fun h => absurd h.text (by decide)⟩,
    ⟨_, _, _, _, rfl, rfl, by decide, rfl, rfl, by decide, by decide⟩⟩

end Aoox.Environments
