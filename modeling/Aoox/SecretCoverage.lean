import Aoox.LayerMerge

/-! # What is masked

The flag of a key is carried along with its value: every definition overwrites
or deletes it, so at the end it is the flag of the layer that supplies the value
(`readProp_scanLayers`).  The values registered on the way are those of every
definition, shadowed ones included, which the source does on purpose: a flag of
a layer that does not supply a value still masks it where that layer holds the
same text.
-/
namespace Aoox
open JsString List

/-! ## Flags -/

variable {flags : SecretFlags} {key : JsString}

theorem readProp_assign {flag : FlagValue} (k : JsString) (hkey : key ≠ js "__proto__") :
    readProp (assign flags key flag) k = if key = k then some flag else readProp flags k := by
  rw [assign, if_neg hkey, readProp, Assoc.get_set]
  split
  · rfl
  · rfl

theorem readProp_erase (k : JsString) : readProp (Assoc.erase flags key) k =
      if key = k then (if k ∈ objectPrototype then some .other else none) else readProp flags k := by
  rw [readProp, Assoc.get_erase]
  split
  · rfl
  · rfl

/-- Without an own property of that name, `__proto__` reads the inherited member. -/
theorem readProp_proto (h : js "__proto__" ∉ flags.map Prod.fst) :
    readProp flags (js "__proto__") = some .other := by
  rw [readProp, Assoc.get_eq_none_iff.mpr h]
  rfl

theorem proto_assign (h : js "__proto__" ∉ flags.map Prod.fst) (key : JsString)
    (flag : FlagValue) : js "__proto__" ∉ (assign flags key flag).map Prod.fst := by
  rw [assign]
  split
  · exact h
  · rename_i hkey
    rw [← Assoc.get_eq_none_iff, Assoc.get_set, if_neg hkey]
    exact Assoc.get_eq_none_iff.mpr h

theorem proto_erase (h : js "__proto__" ∉ flags.map Prod.fst)
    (key : JsString) : js "__proto__" ∉ (Assoc.erase flags key).map Prod.fst := by
  rw [← Assoc.get_eq_none_iff, Assoc.get_erase]
  split
  · rfl
  · exact Assoc.get_eq_none_iff.mpr h

variable {s : LayerScan} {e : JsString × JsString}

theorem readProp_layerEntry (hflags : js "__proto__" ∉ flags.map Prod.fst)
    (hs : js "__proto__" ∉ s.flags.map Prod.fst) :
    js "__proto__" ∉ (layerEntry flags s e).flags.map Prod.fst ∧
      ∀ k, readProp (layerEntry flags s e).flags k =
        if e.1 = k then readProp flags k else readProp s.flags k := by
  rw [layerEntry]
  cases hread : readProp flags e.1 with
  | none =>
    refine ⟨proto_erase hs e.1, fun k => ?_⟩
    show readProp (Assoc.erase s.flags e.1) k = _
    rw [readProp_erase]
    split
    · rename_i hk
      subst hk
      rw [hread]
      simp only [readProp, Option.or_eq_none_iff] at hread
      exact hread.2
    · rfl
  | some flag =>
    refine ⟨proto_assign hs e.1 flag, fun k => ?_⟩
    show readProp (assign s.flags e.1 flag) k = _
    by_cases hproto : e.1 = js "__proto__"
    · rw [assign, if_pos hproto]
      split
      · rename_i hk
        rw [← hk, hproto, readProp_proto hs, readProp_proto hflags]
      · rfl
    · rw [readProp_assign k hproto]
      split
      · rename_i hk
        rw [← hk, hread]
      · rfl

theorem readProp_layer (hflags : js "__proto__" ∉ flags.map Prod.fst)
    (entries : List (JsString × JsString)) (hs : js "__proto__" ∉ s.flags.map Prod.fst) :
    js "__proto__" ∉ (entries.foldl (layerEntry flags) s).flags.map Prod.fst ∧
      ∀ k, readProp (entries.foldl (layerEntry flags) s).flags k =
        if k ∈ entries.map Prod.fst then readProp flags k else readProp s.flags k := by
  induction entries generalizing s with
  | nil => exact ⟨hs, fun k => by simp⟩
  | cons e entries ih =>
    obtain ⟨hproto, hread⟩ := readProp_layerEntry hflags hs (e := e)
    obtain ⟨hproto', hread'⟩ := ih hproto
    refine ⟨hproto', fun k => ?_⟩
    rw [foldl_cons, hread' k, hread k, map_cons]
    by_cases hk : k ∈ entries.map Prod.fst
    · simp [hk]
    · by_cases he : e.1 = k
      · subst he
        simp
      · simp [hk, he, Ne.symm he]

theorem proto_scanLayers (layers : List Layer) :
    js "__proto__" ∉ (scanLayers layers).flags.map Prod.fst := by
  induction layers using reverseRecOn with
  | nil => simp [scanLayers]
  | append_singleton layers layer ih =>
    rw [scanLayers, foldl_append]
    exact (readProp_layer layer.proto (parseEnvLines layer.text) ih).1

variable {layer : Layer}

variable {layers : List Layer}

/-- **The flag of a key is the one of the layer that supplies its value.** -/
theorem readProp_scanLayers {i n : Nat} {k v : JsString} (h : LastLink layers i n k v)
    (hlayer : layers[i]? = some layer) :
    readProp (scanLayers layers).flags k = readProp layer.flags k := by
  induction layers using reverseRecOn with
  | nil => simp at hlayer
  | append_singleton layers l ih =>
    have hread := (readProp_layer l.proto (parseEnvLines l.text) (proto_scanLayers layers)).2 k
    rw [scanLayers, foldl_append]
    refine hread.trans ?_
    rcases lastLink_concat.mp h with ⟨rfl, hlast⟩ | ⟨hk, hlast⟩
    · obtain rfl : l = layer := by simpa using hlayer
      rw [if_pos (mem_keysOf.mp (mem_keysOf_of_isLast hlast))]
    · rw [if_neg fun hmem => hk (mem_keysOf.mpr hmem)]
      have hlt : i < layers.length := by
        obtain ⟨l', hl', -⟩ := hlast
        exact (List.getElem?_eq_some_iff.mp hl').1
      rw [List.getElem?_append_left hlt] at hlayer
      exact ih hlast hlayer

/-! ## Values registered by the layers -/

def Layer.Registers (layer : Layer) (x : JsString) : Prop :=
  ∃ e ∈ parseEnvLines layer.text, isSecretValue e.1 e.2 layer.flags = true ∧ x = e.2

variable {x : JsString}

theorem mem_secrets_layerEntry : x ∈ (layerEntry flags s e).secrets ↔
      x ∈ s.secrets ∨ (isSecretValue e.1 e.2 flags = true ∧ x = e.2) := by
  rw [layerEntry]
  by_cases hsecret : isSecretValue e.1 e.2 flags = true
  · simp only [hsecret, if_true, mem_addTo, true_and]
  · simp only [hsecret, if_false, Bool.false_eq_true, false_and, or_false]

theorem mem_secrets_scanLayers :
    x ∈ (scanLayers layers).secrets ↔ ∃ layer ∈ layers, layer.Registers x := by
  have hlayer : ∀ (flags : SecretFlags) (entries : List (JsString × JsString)) (s : LayerScan),
      x ∈ (entries.foldl (layerEntry flags) s).secrets ↔ x ∈ s.secrets ∨
        ∃ e ∈ entries, isSecretValue e.1 e.2 flags = true ∧ x = e.2 := by
    intro flags entries
    induction entries with
    | nil => simp
    | cons e entries ih =>
      intro s
      rw [foldl_cons, ih, mem_secrets_layerEntry, or_assoc]
      simp only [mem_cons, exists_eq_or_imp]
  induction layers using reverseRecOn with
  | nil => simp [scanLayers]
  | append_singleton layers layer ih =>
    have hconcat : scanLayers (layers ++ [layer]) = layerStep (scanLayers layers) layer := by
      simp [scanLayers]
    rw [hconcat, layerStep, hlayer]
    constructor
    · rintro (hx | hx)
      · obtain ⟨l, hl, hx⟩ := ih.mp hx
        exact ⟨l, mem_append_left _ hl, hx⟩
      · exact ⟨layer, by simp, hx⟩
    · rintro ⟨l, hl, hx⟩
      rcases mem_append.mp hl with hl | hl
      · exact Or.inl (ih.mpr ⟨l, hl, hx⟩)
      · exact Or.inr (mem_singleton.mp hl ▸ hx)

variable {value : JsString}

theorem isSecretValue_congr {flags' : SecretFlags} (h : readProp flags key = readProp flags' key) :
    isSecretValue key value flags = isSecretValue key value flags' := by
  rw [isSecretValue, isSecretValue, h]

theorem isSecretValue_of_unflagged (h : ∀ b, readProp flags key ≠ some (.bool b)) :
    isSecretValue key value flags =
      if looksSecretName key && MIN_REDACT_LENGTH ≤ value.length then true
      else shouldRedactValue value := by
  rw [isSecretValue]
  rcases hread : readProp flags key with _ | b | _ | _
  · rfl
  · exact absurd hread (h b)
  · rfl
  · rfl

theorem isSecretValue_unflagged (h : ∀ b, readProp flags key ≠ some (.bool b)) :
    isSecretValue key value flags = isSecretValue key value [] := by
  have hempty : ∀ b, readProp [] key ≠ some (.bool b) := by
    intro b
    simp only [readProp, Assoc.get_nil, Option.none_or]
    split <;> simp
  rw [isSecretValue_of_unflagged h, isSecretValue_of_unflagged hempty]

theorem isSecretValue_flagged (h : readProp flags key = some (.bool true)) (hne : value ≠ []) :
    isSecretValue key value flags = true := by
  rw [isSecretValue, h]
  simpa [length_pos_iff] using hne

/-! ## The flags a value is judged by -/

section Resolve
variable {svc : Services} {layers : List Layer} {app : EnvOwner} {opts : ResolveOptions}
  {fetched : Option SecretMap}

/-- The flags of the layer that supplies a value; none for the own env. -/
def flagsFor (layers : List Layer) : Origin → SecretFlags
  | .link i _ =>
    match layers[i]? with
    | some layer => layer.flags
    | none => []
  | _ => []

/-- **A value is judged by the flags of the layer that supplies it.** -/
theorem isSecretValue_shown {s : JsString × Sourced} (hs : s ∈ sourcesOf layers app fetched)
    (value : JsString) :
    isSecretValue s.1 value (if (contextOf svc layers app opts fetched).fromSet s.1 then
        (contextOf svc layers app opts fetched).flags else []) =
      isSecretValue s.1 value (flagsFor layers s.2.2) := by
  have hget : Assoc.get (sourcesOf layers app fetched) s.1 = some s.2 :=
    Assoc.get_of_mem nodup_sourcesOf hs
  have hliteral : (contextOf svc layers app opts fetched).isLiteral s.1 = true ↔ s.2.2 = .source :=
    isLiteral_iff hs
  obtain ⟨k, v, o⟩ := s
  cases o with
  | own n =>
    have hown : k ∈ (parseEnvLines app.env).map Prod.fst :=
      mem_keysOf.mp (mem_keysOf_of_isLast (get_origins_own.mp hget))
    rw [if_neg]
    · rfl
    · rw [ResolveContext.fromSet_iff_mem]
      exact fun h => h.2.1 hown
  | source =>
    rw [if_neg]
    · rfl
    · rw [ResolveContext.fromSet_iff_mem, hliteral.mpr rfl]
      exact fun h => by cases h.2.2
  | link i n =>
    obtain ⟨hown, -, hlast⟩ := get_origins_link.mp hget
    obtain ⟨layer, hlayer, -⟩ := id hlast
    have hvars : k ∈ (scanLayers layers).vars.map Prod.fst := by
      rw [← Assoc.get_isSome_iff, get_vars_of_lastLink hlast]
      rfl
    have hnot : (contextOf svc layers app opts fetched).isLiteral k = false := by
      rw [← Bool.not_eq_true, hliteral]
      simp
    rw [if_pos (ResolveContext.fromSet_iff_mem.mpr ⟨hvars, hown, hnot⟩)]
    apply isSecretValue_congr
    have hread : readProp (scanLayers layers).flags k = readProp layer.flags k :=
      readProp_scanLayers hlast hlayer
    simpa [flagsFor, hlayer, contextOf] using hread

/-- What a merged value adds to the secrets. -/
def SourceRegisters (ctx : ResolveContext) (layers : List Layer) (s : JsString × Sourced)
    (x : JsString) : Prop :=
  s.2.2 ≠ .source ∧ ((∃ m ∈ references s.2.1, ctx.IsPassword m x) ∨
    (isSecretValue s.1 (ctx.final s.2) (flagsFor layers s.2.2) = true ∧ x = ctx.final s.2))

/-- **Everything that is masked**: the definitions of every layer, the values of
the source, and the passwords and final values of the merged variables. -/
theorem mem_secrets_iff {r : ResolvedEnv}
    (hfetched : fetchSecrets svc layers app opts = .ok fetched)
    (h : resolve svc layers app opts = .ok r) :
    x ∈ r.secrets ↔ (∃ layer ∈ layers, layer.Registers x) ∨ x ∈ sourceSecrets fetched ∨
      ∃ s ∈ sourcesOf layers app fetched,
        SourceRegisters (contextOf svc layers app opts fetched) layers s x := by
  obtain ⟨fetched', hfetched', -, -, hsecrets⟩ := resolve_spec h
  obtain rfl : fetched = fetched' := Except.ok.inj (hfetched.symm.trans hfetched')
  have hregisters : ∀ s ∈ sourcesOf layers app fetched,
      (contextOf svc layers app opts fetched).Registers (s.1, s.2.1) x ↔
        SourceRegisters (contextOf svc layers app opts fetched) layers s x := by
    intro s hs
    have hliteral : (contextOf svc layers app opts fetched).isLiteral s.1 = false ↔
        s.2.2 ≠ .source := by
      rw [← Bool.not_eq_true, isLiteral_iff hs]
    rw [ResolveContext.Registers, SourceRegisters, hliteral, isSecretValue_shown hs,
      shown_eq_final hs]
  rw [hsecrets x, mem_secrets_scanLayers, ← sourcesOf_map]
  refine or_congr_right (or_congr_right ?_)
  constructor
  · rintro ⟨e, he, hx⟩
    obtain ⟨s, hs, rfl⟩ := mem_map.mp he
    exact ⟨s, hs, (hregisters s hs).mp hx⟩
  · rintro ⟨s, hs, hx⟩
    exact ⟨_, mem_map_of_mem hs, (hregisters s hs).mpr hx⟩

/-! ## Flags of another layer -/

variable {layers' : List Layer}

theorem fetchSecrets_congr (h : (scanLayers layers').vars = (scanLayers layers).vars) :
    fetchSecrets svc layers' app opts = fetchSecrets svc layers app opts := by
  rw [fetchSecrets, fetchSecrets, h]

variable {j : Nat} {layer' : Layer}

theorem texts_set (hlayer : layers[j]? = some layer) (htext : layer'.text = layer.text) :
    (layers.set j layer').map Layer.text = layers.map Layer.text := by
  apply ext_getElem?
  intro i
  rw [List.getElem?_map, List.getElem?_map]
  by_cases hij : j = i
  · subst hij
    have hlt := (List.getElem?_eq_some_iff.mp hlayer).1
    rw [List.getElem?_set_self hlt, hlayer, Option.map_some, Option.map_some, htext]
  · rw [List.getElem?_set_ne hij]

theorem markedLayers_congr (h : layers'.map Layer.text = layers.map Layer.text) :
    markedLayers layers' = markedLayers layers := by
  have hmap : ∀ ls : List Layer, markedLayers ls =
      (ls.map Layer.text).mapIdx fun i text => marked (.link i) (parseEnvLines text) := by
    intro ls
    apply ext_getElem?
    intro i
    simp [markedLayers, Function.comp_def]
  rw [hmap, hmap, h]

theorem mem_set_of_ne {l : Layer} (hlayer : layers[j]? = some layer) (hl : l ∈ layers)
    (hne : l ≠ layer) : l ∈ layers.set j layer' := by
  obtain ⟨i, hi⟩ := List.getElem?_of_mem hl
  have hij : j ≠ i := by
    rintro rfl
    exact hne (Option.some.inj (hi.symm.trans hlayer))
  apply mem_of_getElem? (i := i)
  rw [List.getElem?_set_ne hij, hi]

/-- A layer that holds a value nowhere registers it under no flags. -/
theorem exists_registers_set (hlayer : layers[j]? = some layer) (htext : layer'.text = layer.text)
    (hraw : ∀ e ∈ parseEnvLines layer.text, e.2 ≠ x) :
    (∃ l ∈ layers, l.Registers x) ↔ ∃ l ∈ layers.set j layer', l.Registers x := by
  have hregisters : ∀ l : Layer, l.text = layer.text → ¬ l.Registers x := by
    rintro l hl ⟨e, he, -, rfl⟩
    rw [hl] at he
    exact hraw e he rfl
  constructor
  · rintro ⟨l, hl, hx⟩
    refine ⟨l, mem_set_of_ne hlayer hl ?_, hx⟩
    rintro rfl
    exact hregisters l rfl hx
  · rintro ⟨l, hl, hx⟩
    rcases mem_or_eq_of_mem_set hl with hl | rfl
    · exact ⟨l, hl, hx⟩
    · exact absurd hx (hregisters l htext)

theorem flagsFor_set {o : Origin} (h : ∀ n, o ≠ .link j n) :
    flagsFor (layers.set j layer') o = flagsFor layers o := by
  cases o with
  | own n => rfl
  | source => rfl
  | link i n =>
    have hij : j ≠ i := by
      rintro rfl
      exact h n rfl
    rw [flagsFor, flagsFor, List.getElem?_set_ne hij]

/-- Where layer `j` holds a text neither as a definition nor as the final value
of a key it supplies, its flags do not decide whether that text is masked. -/
theorem mem_secrets_set_flags {r r' : ResolvedEnv}
    (hfetched : fetchSecrets svc layers app opts = .ok fetched)
    (h : resolve svc layers app opts = .ok r) (hlayer : layers[j]? = some layer)
    (htext : layer'.text = layer.text) (h' : resolve svc (layers.set j layer') app opts = .ok r')
    (hraw : ∀ e ∈ parseEnvLines layer.text, e.2 ≠ x)
    (hfinal : ∀ k v n, Assoc.get (sourcesOf layers app fetched) k = some (v, .link j n) →
      (contextOf svc layers app opts fetched).final (v, .link j n) ≠ x) :
    x ∈ r.secrets ↔ x ∈ r'.secrets := by
  have hmarked : markedLayers (layers.set j layer') = markedLayers layers :=
    markedLayers_congr (texts_set hlayer htext)
  have hvars : (scanLayers (layers.set j layer')).vars = (scanLayers layers).vars := by
    rw [← mergeLayers_markedLayers, ← mergeLayers_markedLayers, hmarked]
  have hsources : sourcesOf (layers.set j layer') app fetched = sourcesOf layers app fetched := by
    rw [sourcesOf, sourcesOf, origins, origins, hmarked]
  -- the two contexts differ in their flags, which no expansion reads
  have hctx : contextOf svc (layers.set j layer') app opts fetched =
      { contextOf svc layers app opts fetched with flags := (scanLayers (layers.set j layer')).flags } := by
    rw [contextOf, contextOf, hvars]
  have hsource : ∀ s ∈ sourcesOf layers app fetched,
      SourceRegisters (contextOf svc layers app opts fetched) layers s x ↔
        SourceRegisters (contextOf svc (layers.set j layer') app opts fetched)
          (layers.set j layer') s x := by
    intro s hs
    rw [hctx]
    refine and_congr_right fun _ => or_congr_right (and_congr_left ?_)
    rintro rfl
    obtain ⟨k, v, o⟩ := s
    have hget : Assoc.get (sourcesOf layers app fetched) k = some (v, o) :=
      Assoc.get_of_mem nodup_sourcesOf hs
    have hother : ∀ n, o ≠ .link j n := by
      rintro n rfl
      exact hfinal k v n hget rfl
    rw [flagsFor_set hother]
    rfl
  rw [mem_secrets_iff hfetched h, mem_secrets_iff (fetchSecrets_congr hvars ▸ hfetched) h',
    hsources, exists_registers_set hlayer htext hraw]
  refine or_congr_right (or_congr_right (exists_congr fun s => and_congr_right fun hs => ?_))
  exact hsource s hs

/-- **The secrets cover the environment**, whatever the overlaps of the layers;
and a flag of a layer decides about the masking of a value only where the layer
holds that text itself. -/
theorem secrets_cover {r : ResolvedEnv} (hfetched : fetchSecrets svc layers app opts = .ok fetched)
    (h : resolve svc layers app opts = .ok r) :
    let ctx := contextOf svc layers app opts fetched
    let sources := sourcesOf layers app fetched
    (∀ k v i n layer, Assoc.get sources k = some (v, .link i n) → layers[i]? = some layer →
      readProp layer.flags k = some (.bool true) →
        (v ≠ [] → v ∈ r.secrets) ∧
        (ctx.final (v, .link i n) ≠ [] → ctx.final (v, .link i n) ∈ r.secrets)) ∧
    (∀ k v n, Assoc.get sources k = some (v, .own n) →
      isSecretValue k (ctx.final (v, .own n)) [] = true → ctx.final (v, .own n) ∈ r.secrets) ∧
    (∀ k v i n layer, Assoc.get sources k = some (v, .link i n) → layers[i]? = some layer →
      (∀ b, readProp layer.flags k ≠ some (.bool b)) →
      isSecretValue k (ctx.final (v, .link i n)) [] = true →
        ctx.final (v, .link i n) ∈ r.secrets) ∧
    (∀ k v o, Assoc.get sources k = some (v, o) → o ≠ .source → ∀ m ∈ references v,
      ∀ fields, ctx.databaseOf m = some fields → fields.password ∈ r.secrets) ∧
    (∀ secrets ∈ fetched, ∀ e ∈ secrets.entries, MIN_REDACT_LENGTH ≤ e.2.length →
      e.2 ∈ r.secrets) ∧
    (∀ j layer layer' r', layers[j]? = some layer → layer'.text = layer.text →
      resolve svc (layers.set j layer') app opts = .ok r' →
      ∀ k s, Assoc.get sources k = some s → (∀ e ∈ parseEnvLines layer.text, e.2 ≠ ctx.final s) →
      (∀ k' v' n, Assoc.get sources k' = some (v', .link j n) →
        ctx.final (v', .link j n) ≠ ctx.final s) →
        (ctx.final s ∈ r.secrets ↔ ctx.final s ∈ r'.secrets)) := by
  intro ctx sources
  have hmem : ∀ x, x ∈ r.secrets ↔ _ := fun x => mem_secrets_iff hfetched h
  have hfinal : ∀ {k s}, Assoc.get sources k = some s → s.2 ≠ .source →
      isSecretValue k (ctx.final s) (flagsFor layers s.2) = true → ctx.final s ∈ r.secrets := by
    intro k s hget hsource hsecret
    exact (hmem _).mpr (Or.inr (Or.inr ⟨(k, s), Assoc.mem_of_get hget, hsource,
      Or.inr ⟨hsecret, rfl⟩⟩))
  refine ⟨?_, ?_, ?_, ?_, ?_, ?_⟩
  · intro k v i n layer hget hlayer hflag
    obtain ⟨-, -, layer', hlayer', hlast, -⟩ := get_origins_link.mp hget
    obtain rfl : layer = layer' := Option.some.inj (hlayer.symm.trans hlayer')
    refine ⟨fun hne => (hmem v).mpr (Or.inl ⟨layer, List.mem_of_getElem? hlayer, (k, v),
      List.mem_of_getElem? hlast.1, isSecretValue_flagged hflag hne, rfl⟩), fun hne => ?_⟩
    refine hfinal hget (by simp) (isSecretValue_flagged ?_ hne)
    simpa [flagsFor, hlayer] using hflag
  · intro k v n hget hsecret
    exact hfinal hget (by simp) hsecret
  · intro k v i n layer hget hlayer hflag hsecret
    refine hfinal hget (by simp) ?_
    rw [isSecretValue_unflagged (by simpa [flagsFor, hlayer] using hflag), hsecret]
  · intro k v o hget hsource m hm fields hfields
    exact (hmem _).mpr (Or.inr (Or.inr ⟨(k, v, o), Assoc.mem_of_get hget, hsource,
      Or.inl ⟨m, hm, fields, hfields, rfl⟩⟩))
  · rintro secrets hsecrets e he hlen
    obtain rfl := Option.mem_def.mp hsecrets
    refine (hmem _).mpr (Or.inr (Or.inl ?_))
    simp only [sourceSecrets, List.mem_filter, decide_eq_true_eq]
    exact ⟨List.mem_map_of_mem he, hlen⟩
  · intro j layer layer' r' hlayer htext h' k s _ hraw hother
    exact mem_secrets_set_flags hfetched h hlayer htext h' hraw hother

end Resolve

/-! ## A shadowed value -/

/-- The same value twice, flagged only where it is shadowed. -/
def modeLinks : List Layer :=
  [⟨js "MODE=production", [(js "MODE", .bool true)], by decide⟩,
    ⟨js "MODE=production\nURL=$\x7b\x7bvars.MODE\x7d\x7d.example.com", [], proto_notMem_nil⟩]

def modeResolved : ResolvedEnv :=
  ⟨[js "MODE=production", js "URL=production.example.com"], [js "production",
    js "$\x7b\x7bvars.MODE\x7d\x7d.example.com", js "production.example.com"]⟩

theorem secrets_cover_modeLinks :
    resolve noServices modeLinks (plainOwner []) ⟨true, false⟩ = .ok modeResolved ∧
      js "production.example.com" ∈ modeResolved.secrets := by
  have hfetched : fetchSecrets noServices modeLinks (plainOwner []) ⟨true, false⟩ = .ok none := by
    rfl
  have hresolved : resolve noServices modeLinks (plainOwner []) ⟨true, false⟩ = .ok modeResolved := by
    rfl
  obtain ⟨-, -, hunflagged, -⟩ := secrets_cover hfetched hresolved
  exact ⟨hresolved, hunflagged (js "URL") (js "$\x7b\x7bvars.MODE\x7d\x7d.example.com") 1 1
    ⟨js "MODE=production\nURL=$\x7b\x7bvars.MODE\x7d\x7d.example.com", [], by decide⟩
    (by rfl) rfl (by decide) (by rfl)⟩

/-- **A flag of a shadowed layer masks**: without it the final value of `MODE`,
which comes from the other layer, is not a secret. -/
theorem shadowed_flag_masks :
    ¬ ∀ (svc : Services) (layers : List Layer) (app : EnvOwner) (opts : ResolveOptions)
      (fetched : Option SecretMap) (r r' : ResolvedEnv) (j : Nat) (layer layer' : Layer)
      (k : JsString) (s : Sourced), fetchSecrets svc layers app opts = .ok fetched →
      resolve svc layers app opts = .ok r → layers[j]? = some layer → layer'.text = layer.text →
      resolve svc (layers.set j layer') app opts = .ok r' →
      Assoc.get (sourcesOf layers app fetched) k = some s → (∀ n, s.2 ≠ .link j n) →
      ((contextOf svc layers app opts fetched).final s ∈ r.secrets ↔
        (contextOf svc layers app opts fetched).final s ∈ r'.secrets) := by
  intro hall
  have hmasked := hall noServices modeLinks (plainOwner []) ⟨true, false⟩ none modeResolved
    ⟨modeResolved.env, modeResolved.secrets.tail⟩ 0
    ⟨js "MODE=production", [(js "MODE", .bool true)], by decide⟩
    ⟨js "MODE=production", [], by decide⟩ (js "MODE") (js "production", .link 1 0)
    (by rfl) (by rfl) rfl rfl (by rfl) (by rfl) (by simp)
  exact absurd (hmasked.mp (by decide)) (by decide)

end Aoox
