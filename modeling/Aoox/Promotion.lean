import Aoox.EnvironmentHistory
import Aoox.SetValues
import Aoox.Grouping

/-! # Promoting values between environments

`promote` copies values and their secret flags from one environment into
another.  It reads the source twice without a lock, the row with the flags first
and the text in a later query, so the pair it carries may never have been
committed together.  When no commit of the source falls between the two reads,
the pair is one content of the source, and what arrives in the target is the
value and the flag of that content.  One kind of name is an exception: for a
name every object inherits, an unmarked flag of the source is read as a function
and the target keeps its own flag.
-/
open List Option Function
namespace Aoox.Environments

open JsString

/-! ## What arrives in the target -/

/-- The target holds value and flag of `content` for every promoted key. -/
def Arrived (content : Content) (keys : List JsString) (env : Environment) : Prop :=
  ∀ k ∈ keys, (Assoc.get (envMap content.text) k).isSome = true ∧
    Assoc.get (envMap env.text) k = Assoc.get (envMap content.text) k ∧
    Assoc.get env.row.secretFlags k = Assoc.get content.flags k

instance (content : Content) (keys : List JsString) (env : Environment) :
    Decidable (Arrived content keys env) :=
  inferInstanceAs (Decidable (∀ k ∈ keys, (Assoc.get (envMap content.text) k).isSome = true ∧
    Assoc.get (envMap env.text) k = Assoc.get (envMap content.text) k ∧
    Assoc.get env.row.secretFlags k = Assoc.get content.flags k))

/-- A content an environment can have. -/
structure Content.Stored (c : Content) : Prop where
  text : wellFormed c.text = c.text
  flags : StoredFlags c.flags

theorem get_patchOf (flags : SecretFlags) (keys : List JsString) (k : JsString) :
    Assoc.get (patchOf flags keys) k =
      if k ∈ keys ∧ k ≠ js "__proto__" then some ((readProp flags k).getD .null) else none := by
  have hfold : ∀ patch : SecretFlags,
      Assoc.get (keys.foldl (fun patch k => assign patch k ((readProp flags k).getD .null)) patch) k =
        if k ∈ keys ∧ k ≠ js "__proto__" then some ((readProp flags k).getD .null)
        else Assoc.get patch k := by
    induction keys with
    | nil => simp
    | cons key keys ih =>
      intro patch
      rw [foldl_cons, ih, assign]
      by_cases hp : k = js "__proto__"
      · subst hp
        by_cases hkey : key = js "__proto__"
        · simp [hkey]
        · simp [hkey, Assoc.get_set]
      · by_cases hkey : key = js "__proto__"
        · have hne : k ≠ key := fun he => hp (he.trans hkey)
          simp [hkey, hp]
        · by_cases hk : k = key
          · subst hk
            simp [hp, Assoc.get_set]
          · simp [hp, hk, Ne.symm hk, hkey, Assoc.get_set]
  exact hfold []

variable {flags : SecretFlags}

/-- **The flag of a promoted key is the source's**, unless the name is inherited,
unmarked in the source and marked in the target. -/
theorem get_promoted_flag {previous : SecretFlags} (hflags : StoredFlags flags)
    {previousKeys keys promoted : List JsString} {k : JsString} (hk : k ∈ keys)
    (hpromoted : k ∈ promoted)
    (hinherited : k ∈ objectPrototype → Assoc.get flags k = none → Assoc.get previous k = none) :
    Assoc.get (toJson (nextFlags previous previousKeys keys (patchOf flags promoted))) k =
      Assoc.get flags k := by
  rw [get_toJson (nodup_nextFlags _ _ _ _), get_nextFlags]
  by_cases hproto : k = js "__proto__"
  · rw [hproto, hflags.proto]
    simp
  rw [if_pos ⟨hk, hproto⟩, nextFlag, get_patchOf, if_pos ⟨hpromoted, hproto⟩]
  cases hown : Assoc.get flags k with
  | some v =>
    obtain ⟨b, rfl⟩ := hflags.bool k v hown
    simp [readProp, hown, Option.filter]
  | none =>
    by_cases hinh : k ∈ objectPrototype
    · -- the patch holds a function, so the flag of the target is read
      simp [readProp, hown, hinh, hinherited hinh hown, Option.filter]
    · simp [readProp, hown, hinh]

theorem fixed_of_map_eq {α : Type} {f : α → α} {l : List α} (h : l.map f = l) {a : α}
    (ha : a ∈ l) : f a = a := by
  induction l with
  | nil => cases ha
  | cons x xs ih =>
    obtain ⟨hx, hxs⟩ := List.cons.inj h
    rcases mem_cons.mp ha with rfl | ha
    · exact hx
    · exact ih hxs ha

variable {text : JsString}

theorem wellFormed_value (h : wellFormed text = text) {e : JsString × JsString}
    (he : e ∈ parseEnvLines text) : wellFormed e.2 = e.2 := by
  have hmap := parseEnvLines_wellFormed text
  rw [h] at hmap
  exact congrArg Prod.snd (fixed_of_map_eq hmap.symm he)

theorem mem_of_envMap {k v : JsString} (h : Assoc.get (envMap text) k = some v) :
    (k, v) ∈ parseEnvLines text := by
  rw [envMap, Assoc.get_ofList] at h
  exact mem_reverse.mp (Assoc.mem_of_get h)

theorem get_envMap_storedText (h : storable text = true) (k : JsString) :
    Assoc.get (envMap (storedText text)) k = (Assoc.get (envMap text) k).map wellFormed := by
  have hparse : parseEnvLines (storedText text) =
      (parseEnvLines text).map fun e => (e.1, wellFormed e.2) := by
    rw [storedText_eq]
    split
    · rename_i hb
      rw [parseEnvLines_blank hb, parseEnvLines_blank rfl]
      rfl
    · rw [parseEnvLines_wellFormed]
      refine map_congr_left fun e he => Prod.ext (storable_keys h ?_) rfl
      rw [keysOf, mem_eraseDups]
      exact mem_map_of_mem he
  rw [envMap, envMap, Assoc.get_ofList, Assoc.get_ofList, hparse, ← map_reverse, Assoc.get_map]

structure Promotion.From (p : Promotion) (content : Content) : Prop where
  stored : content.Stored
  values : p.values = envMap content.text
  flags : p.flags = content.flags
  present : ∀ k ∈ p.keys, (Assoc.get (envMap content.text) k).isSome = true
  nodup : p.keys.Nodup

/-- The names `promote` takes over as they stand in the target's flags. -/
def KeepsOwnFlag (p : Promotion) (env : Environment) : Prop :=
  ∃ k ∈ p.keys, k ∈ objectPrototype ∧ Assoc.get p.flags k = none ∧
    Assoc.get env.row.secretFlags k ≠ none

variable {env : Environment}

variable {env' : Environment} {db : Stamp}

/-- **What one content of the source held together arrives together.** -/
theorem arrived_of_promote {p : Promotion} {actor : EnvActor} {content : Content}
    (hfrom : p.From content) (hkeep : ¬ KeepsOwnFlag p env)
    (h : promote env p actor db = .ok env') : Arrived content p.keys env' := by
  rw [promote] at h
  split at h
  · cases h
  rename_i text hset
  split at h
  · cases h
  obtain ⟨hst, hrow, -⟩ := commit_ok h
  have hcontent := content_savedRow hrow
  have hentries : ∀ e ∈ p.keys.map fun k => (k, (Assoc.get p.values k).getD []),
      (e.1, e.2) ∈ parseEnvLines content.text := by
    intro e he
    obtain ⟨k, hk, rfl⟩ := mem_map.mp he
    obtain ⟨v, hv⟩ := isSome_iff_exists.mp (hfrom.present k hk)
    rw [hfrom.values, hv]
    exact mem_of_envMap hv
  intro k hk
  obtain ⟨v, hv⟩ := isSome_iff_exists.mp (hfrom.present k hk)
  have hget : Assoc.get (envMap text) k = some v := by
    have hnodup : ((p.keys.map fun k => (k, (Assoc.get p.values k).getD [])).map Prod.fst).Nodup := by
      rw [List.map_map, show (Prod.fst ∘ fun k => (k, (Assoc.get p.values k).getD [])) = id from rfl,
        List.map_id]
      exact hfrom.nodup
    have := get_envMap_setValues (fun e he => entry_of_mem (hentries e he)) hnodup hset
      (mem_map_of_mem hk)
    simpa [hfrom.values, hv] using this
  refine ⟨hfrom.present k hk, ?_, ?_⟩
  · have htext : env'.text = storedText text := congrArg Content.text hcontent
    rw [htext, get_envMap_storedText hst, hget, hv, map_some,
      wellFormed_value hfrom.stored.text (mem_of_envMap hv)]
  · have hflags : env'.row.secretFlags = _ := congrArg Content.flags hcontent
    have hkeys : k ∈ keysOf text := by
      rw [keysOf, mem_eraseDups]
      exact mem_map.mpr ⟨_, mem_of_envMap hget, rfl⟩
    rw [hflags, ← hfrom.flags]
    refine get_promoted_flag (hfrom.flags ▸ hfrom.stored.flags) hkeys hk fun hinh hnone => ?_
    by_contra hne
    exact hkeep ⟨k, hk, hinh, hnone, hne⟩

/-! ## Runs -/

/-- No commit of the source falls between the two reads of a promotion, and no
promotion meets a name that keeps the target's flag. -/
def SourceSteady (s : State) : Action → Prop
  | .readSource p => ∀ c sourceName flags seen, s.phase p = .promoting c sourceName flags seen →
      (s.committed c.source).length = seen
  | .commit p _ _ _ => ∀ w start promotion env, s.phase p = .opened w start →
      w.change = .promote promotion → s.envs w.env = some env → ¬ KeepsOwnFlag promotion env
  | _ => True

/-- A write that promotes carries one committed content of its source. -/
def Write.Sound (committed : Nat → List Content) (w : Write) : Prop :=
  ∀ promotion, w.change = .promote promotion →
    ∃ content ∈ committed promotion.source, promotion.From content

/-- What a client has read. -/
def Phase.Sound (s : State) : Phase → Prop
  | .idle => True
  | .promoting c _ flags seen => seen ≤ (s.committed c.source).length ∧
      ((s.committed c.source).length = seen →
        ∃ env, s.envs c.source = some env ∧ env.row.secretFlags = flags)
  | .asked w => w.Sound s.committed
  | .opened w _ => w.Sound s.committed

structure SourceInv (s : State) : Prop where
  stored : ∀ e env, s.envs e = some env → Stored env
  current : ∀ e env, s.envs e = some env → env.content ∈ s.committed e
  phase : ∀ p, (s.phase p).Sound s

variable {sourceName : JsString} {c : PromoteCall} {promotion : Promotion}

theorem from_of_promotionOf (hs : Stored env) (hflags : env.row.secretFlags = flags)
    (h : promotionOf c sourceName flags env.text = some promotion) :
    promotion.source = c.source ∧ promotion.From env.content := by
  rw [promotionOf] at h
  split at h
  · cases h
  rename_i hall
  obtain rfl := some.inj h
  refine ⟨rfl, ⟨⟨hs.text, hs.flags⟩, rfl, hflags.symm, fun k hk => ?_, Grouping.nodup_eraseDups _⟩⟩
  by_contra hnone
  exact hall (any_eq_true.mpr ⟨k, hk, by simpa [Environment.content] using hnone⟩)

/-! ### Writes of other clients -/

variable {w : Write}

theorem Write.Sound.mono {committed committed' : Nat → List Content} (h : w.Sound committed)
    (hle : ∀ e, committed e ⊆ committed' e) : w.Sound committed' := by
  intro promotion hw
  obtain ⟨content, hmem, hfrom⟩ := h promotion hw
  exact ⟨content, hle _ hmem, hfrom⟩

theorem committed_subset_put (s : State) (e : Nat) (env : Environment) (e' : Nat) :
    s.committed e' ⊆ (s.put e env).committed e' := by
  by_cases h : e' = e
  · subst h
    simp [State.put]
  · simp [State.put, update_of_ne h]

variable {s : State}

variable {ph : Phase}

/-- A commit makes an open read of that environment stale and leaves all else. -/
theorem Phase.Sound.put (h : ph.Sound s) (e : Nat) (env : Environment) :
    ph.Sound (s.put e env) := by
  cases ph with
  | idle => trivial
  | promoting c sourceName flags seen =>
    obtain ⟨hle, hcur⟩ := h
    by_cases hce : c.source = e
    · refine ⟨?_, fun hlen => ?_⟩
      · simp only [State.put, hce, update_self, length_cons]
        rw [hce] at hle
        omega
      · simp only [State.put, hce, update_self, length_cons] at hlen
        rw [hce] at hle
        omega
    · simpa [Phase.Sound, State.put, update_of_ne hce] using And.intro hle hcur
  | asked w => exact Write.Sound.mono h (committed_subset_put s e env)
  | opened w start => exact Write.Sound.mono h (committed_subset_put s e env)

theorem SourceInv.put (hs : SourceInv s) (e : Nat)
    (hst : Stored env) : SourceInv (s.put e env) := by
  refine ⟨fun e' env' he' => ?_, fun e' env' he' => ?_, fun p => (hs.phase p).put e env⟩
  · rcases State.envs_put he' with ⟨-, rfl⟩ | hold
    · exact hst
    · exact hs.stored e' env' hold
  · rcases State.envs_put he' with ⟨rfl, rfl⟩ | hold
    · simp [State.put]
    · exact committed_subset_put s e env e' (hs.current e' env' hold)

theorem SourceInv.goto (hs : SourceInv s) (p : Nat) (hph : ph.Sound s) :
    SourceInv (s.goto p ph) := by
  refine ⟨hs.stored, hs.current, fun q => ?_⟩
  by_cases hq : q = p
  · subst hq
    simp only [State.goto, update_self]
    cases ph <;> exact hph
  · simp only [State.goto, update_of_ne hq]
    have := hs.phase q
    cases hsq : s.phase q <;> rw [hsq] at this <;> exact this

theorem SourceInv.setReveal (hs : SourceInv s) (p : Nat) (r : Reveal) :
    SourceInv (s.setReveal p r) := by
  refine ⟨hs.stored, hs.current, fun q => ?_⟩
  have := hs.phase q
  simp only [State.setReveal]
  cases hsq : s.phase q <;> rw [hsq] at this <;> exact this

theorem SourceInv.finish (hs : SourceInv s) (p : Nat) : SourceInv (s.finish p) :=
  (hs.goto p (show Phase.Sound s .idle from trivial)).setReveal p _

/-- **Every step of a steady run keeps what the promotions have read.** -/
theorem sourceInv_step {s' : State} {a : Action} (hs : SourceInv s) (ha : SourceSteady s a)
    (h : step s a = some s') : SourceInv s' := by
  cases step_effect h with
  | fresh _ hnew => exact hs.put _ (new_ok hnew).1
  | revealRow _ => exact hs.setReveal _ _
  | revealText _ _ => exact hs.setReveal _ _
  | ask hw => exact hs.goto _ fun promotion hp => absurd hp (hw promotion)
  | promote he => exact hs.goto _ ⟨le_rfl, fun _ => ⟨_, he, rfl⟩⟩
  | @readSource p c sourceName flags seen env promotion hp he hpr =>
    have hread := hs.phase p
    rw [hp] at hread
    obtain ⟨env₁, he₁, hflags⟩ := hread.2 (ha _ _ _ _ hp)
    obtain rfl : env₁ = env := some.inj (he₁.symm.trans he)
    obtain ⟨hsource, hfrom⟩ := from_of_promotionOf (hs.stored _ _ he) hflags hpr
    refine hs.goto p fun promotion' hp' => ?_
    obtain rfl : promotion = promotion' := Change.promote.inj hp'
    exact ⟨env₁.content, hsource ▸ hs.current _ _ he, hfrom⟩
  | @beginTx p start w hp =>
    have hasked := hs.phase p
    rw [hp] at hasked
    exact hs.goto p hasked
  | write hp he hw =>
    obtain ⟨text, patch, ctx, hcommit⟩ := transact_ok hw
    exact (hs.put _ (stored_commit (hs.stored _ _ he) hcommit)).finish _
  | finish => exact hs.finish _

theorem sourceInv_initial : SourceInv initial :=
  ⟨by simp [initial], by simp [initial], fun _ => trivial⟩

theorem promote_of_transact (hw : w.change = .promote promotion)
    (h : transact env w db = .ok env') : promote env promotion w.actor db = .ok env' := by
  rw [transact] at h
  simp only [applyChange, hw] at h
  split at h
  · cases h
  · exact h
  · split at h
    · cases h
    · exact h

/-- **What a promotion writes was committed together in its source**, in every
run in which no commit of a source falls between a promotion's two reads of it
(and no inherited name keeps the flag of the target). -/
theorem arrived_of_accepted (acts : List Action) (s : State)
    (hc : Runs.Meets step SourceSteady initial acts) (hs : Runs.exec step initial acts = some s)
    (p start clock id baselineId : Nat) (w : Write) (promotion : Promotion) (env' : Environment)
    (hphase : s.phase p = .opened w start) (hchange : w.change = .promote promotion)
    (hsteady : SourceSteady s (.commit p clock id baselineId))
    (haccepted : accepted s p clock id baselineId = some (w.env, env')) :
    ∃ content ∈ s.committed promotion.source, Arrived content promotion.keys env' := by
  have hinv : SourceInv s :=
    Runs.exec_invariant (fun _ _ _ hinv ha hstep => sourceInv_step hinv ha hstep) acts _ s
      sourceInv_initial hc hs
  obtain ⟨w', start', env, hp, -, he, htransact⟩ := accepted_eq haccepted
  obtain ⟨rfl, rfl⟩ := Phase.opened.inj (hphase.symm.trans hp)
  have hopened := hinv.phase p
  rw [hp] at hopened
  obtain ⟨content, hmem, hfrom⟩ := hopened promotion hchange
  exact ⟨content, hmem, arrived_of_promote hfrom (hsteady w start promotion env hp hchange he)
    (promote_of_transact hchange htransact)⟩

/-! ## A commit between the two reads

Environment 0 is the source, environment 1 the target. -/

/-- The source holds `A=1`, unmarked. -/
def sourceAndTarget : List Action :=
  [.create 0 (js "staging") 1000000, .create 1 (js "production") 1000000] ++
    editRun 0 (js "A=1") 2000100 2000400 7 8

def promoteA : PromoteCall := ⟨1, 0, [js "A"], .omitted, owner⟩

def markSecret : List Action :=
  [.update 0 ⟨0, .omitted, .restore 0, owner⟩ (js "A=s3cret") [(js "A", .bool true)] .edit,
    .beginTx 0 3000000, .commit 0 3000400 9 10]

/-- The source is marked before the promotion reads it. -/
def promoteBehind : List Action :=
  sourceAndTarget ++ markSecret ++ [.promote 2 promoteA, .readSource 2, .beginTx 2 4000000]

variable {p start clock id baselineId : Nat}

theorem steady_edit (hp : s.phase p = .opened w start)
    (hw : ∀ promotion, w.change ≠ .promote promotion) :
    SourceSteady s (.commit p clock id baselineId) := by
  intro w' start' promotion env hp' hchange
  obtain ⟨rfl, -⟩ := Phase.opened.inj (hp.symm.trans hp')
  exact absurd hchange (hw promotion)

theorem steady_read {seen : Nat} (hp : s.phase p = .promoting c sourceName flags seen)
    (hlen : (s.committed c.source).length = seen) : SourceSteady s (.readSource p) := by
  intro c' sourceName' flags' seen' hp'
  obtain ⟨rfl, rfl, rfl, rfl⟩ := Phase.promoting.inj (hp.symm.trans hp')
  exact hlen

theorem steady_promote (hp : s.phase p = .opened w start) (hw : w.change = .promote promotion)
    (hkeys : ∀ k ∈ promotion.keys, k ∉ objectPrototype) :
    SourceSteady s (.commit p clock id baselineId) := by
  rintro w' start' promotion' env hp' hchange - ⟨k, hk, hinh, -⟩
  obtain ⟨rfl, -⟩ := Phase.opened.inj (hp.symm.trans hp')
  obtain rfl : promotion = promotion' := Change.promote.inj (hw.symm.trans hchange)
  exact hkeys k hk hinh

theorem arrived_promoteBehind :
    ∃ s env' content, Runs.exec step initial promoteBehind = some s ∧
      accepted s 2 4000400 11 12 = some (1, env') ∧ content ∈ s.committed 0 ∧
      Arrived content [js "A"] env' := by
  have hmeets : Runs.Meets step SourceSteady initial promoteBehind :=
    Runs.meets_cons rfl trivial <| Runs.meets_cons rfl trivial <| Runs.meets_cons rfl trivial <|
      Runs.meets_cons rfl trivial <| Runs.meets_cons rfl (steady_edit rfl (by simp)) <|
      Runs.meets_cons rfl trivial <| Runs.meets_cons rfl trivial <|
      Runs.meets_cons rfl (steady_edit rfl (by simp)) <| Runs.meets_cons rfl trivial <|
      Runs.meets_cons rfl (steady_read rfl rfl) <| Runs.meets_cons rfl trivial trivial
  obtain ⟨content, hmem, harrived⟩ := arrived_of_accepted promoteBehind _ hmeets rfl 2 4000000
    4000400 11 12 _ _ _ rfl rfl (steady_promote rfl rfl (by decide)) rfl
  exact ⟨_, _, content, rfl, rfl, hmem, harrived⟩

/-- The source is marked between the two reads. -/
def promoteBetween : List Action :=
  sourceAndTarget ++ .promote 2 promoteA :: markSecret ++ [.readSource 2, .beginTx 2 4000000]

/-- The secret value arrives in the target unmarked: no committed state of the
source held that pair. -/
theorem secret_arrives_unmarked :
    ∃ s w env', Runs.exec step initial promoteBetween = some s ∧
      s.phase 2 = .opened w 4000000 ∧ w.env = 1 ∧ accepted s 2 4000400 11 12 = some (1, env') ∧
      Assoc.get (envMap env'.text) (js "A") = some (js "s3cret") ∧
      ∀ content ∈ s.committed 0, ¬ Arrived content [js "A"] env' := by
  exact ⟨_, _, _, rfl, rfl, rfl, rfl, by decide, by decide⟩

end Aoox.Environments
