import Aoox.EnvResolver
import Aoox.SetValues

/-! # Which definition takes effect

The merge of `resolve` and the conflict view of `linkConflicts` are computed
apart from each other: one writes maps, the other compares lists of names.  To
say which definition a value comes from, the same merge is run on values that
carry where they stand (`origins`); dropping that again gives the merge of the
source (`origins_map`), so nothing is assumed about it.  Reading the marked map
finds the last definition in the own env, else the source, else the last
definition in the last link, and the conflict view says the same about every
link (`takesEffect_iff`).
-/
namespace Aoox
open JsString List Option

/-! ## The conflict view -/

/-- What the view shows of one link. -/
structure LinkConflict where
  (shadowedKeys overriddenByOwnEnv : List JsString)
deriving Repr

/-- Per link, which of its keys a later link or the owner's own env overrides. -/
def linkConflicts (layers : List (List JsString)) (ownKeys : List JsString) : List LinkConflict :=
  layers.mapIdx fun i keys =>
    let later := (layers.drop (i + 1)).flatten
    { shadowedKeys := keys.filter fun k => k ∈ later
      overriddenByOwnEnv := keys.filter fun k => k ∈ ownKeys ∧ k ∉ later }

/-! ## Values that carry where they stand -/

/-- Where a value is defined: line `n` of the own env, the secret source, or line
`n` of link `i`. -/
inductive Origin where
  | own (n : Nat)
  | source
  | link (i n : Nat)
deriving Repr

/-- A merged value and where it stands. -/
abbrev Sourced := JsString × Origin

def marked (tag : Nat → Origin) (entries : List (JsString × JsString)) :
    List (JsString × Sourced) :=
  entries.mapIdx fun n e => (e.1, (e.2, tag n))

def markedLayers (layers : List Layer) : List (List (JsString × Sourced)) :=
  layers.mapIdx fun i layer => marked (.link i) (parseEnvLines layer.text)

/-- The merge of `resolve`, run on marked values. -/
def origins (layers : List Layer) (synced own : List (JsString × JsString)) :
    List (JsString × Sourced) :=
  mergeSources (mergeLayers (markedLayers layers)) (marked (fun _ => .source) synced)
    (marked .own own)

/-- What becomes of a marked value: source secrets are literal, the rest is
expanded. -/
def ResolveContext.final (ctx : ResolveContext) (s : Sourced) : JsString :=
  match s.2 with
  | .source => s.1
  | _ => Splicing.expand reference ctx.inserted s.1

/-- The entry of a marked value. -/
def ResolveContext.render (ctx : ResolveContext) (s : JsString × Sourced) : JsString :=
  lineOf s.1 (ctx.final s.2)

def entryKey (line : JsString) : JsString := line.takeWhile (· != cu '=')

/-! ## The merge of the layers -/

theorem marked_map (tag : Nat → Origin) (entries : List (JsString × JsString)) :
    (marked tag entries).map (fun e => (e.1, e.2.1)) = entries := by
  apply ext_getElem?
  intro i
  simp [marked, Function.comp_def]

theorem mergeLayers_map {β γ : Type} (g : β → γ) (layers : List (List (JsString × β))) :
    (mergeLayers layers).map (fun e => (e.1, g e.2)) =
      mergeLayers (layers.map fun entries => entries.map fun e => (e.1, g e.2)) := by
  induction layers using reverseRecOn with
  | nil => rfl
  | append_singleton layers layer ih =>
    simp only [mergeLayers, map_append, map_cons, map_nil, foldl_append,
      foldl_cons, foldl_nil, Assoc.setAll_map] at ih ⊢
    rw [ih]

theorem scanLayers_vars (layers : List Layer) :
    (scanLayers layers).vars = mergeLayers (layers.map fun layer => parseEnvLines layer.text) := by
  have hlayer : ∀ (flags : SecretFlags) (entries : List (JsString × JsString)) (s : LayerScan),
      (entries.foldl (layerEntry flags) s).vars = Assoc.setAll s.vars entries := by
    intro flags entries
    induction entries with
    | nil => exact fun s => rfl
    | cons e entries ih => exact fun s => ih (layerEntry flags s e)
  induction layers using reverseRecOn with
  | nil => rfl
  | append_singleton layers layer ih =>
    simp only [scanLayers, mergeLayers, map_append, map_cons, map_nil,
      foldl_append, foldl_cons, foldl_nil] at ih ⊢
    rw [layerStep, hlayer, ih]

theorem mergeLayers_markedLayers (layers : List Layer) :
    (mergeLayers (markedLayers layers)).map (fun e => (e.1, e.2.1)) = (scanLayers layers).vars := by
  have hlayers : (markedLayers layers).map (fun entries => entries.map fun e => (e.1, e.2.1)) =
      layers.map fun layer => parseEnvLines layer.text := by
    apply ext_getElem?
    intro i
    simp [markedLayers, marked_map, Function.comp_def]
  rw [mergeLayers_map (fun s : Sourced => s.1), hlayers, scanLayers_vars]

/-- **The marked merge is the merge of the source.** -/
theorem origins_map (layers : List Layer) (synced own : List (JsString × JsString)) :
    (origins layers synced own).map (fun e => (e.1, e.2.1)) =
      mergeSources (scanLayers layers).vars synced own := by
  rw [origins, mergeSources, mergeSources, Assoc.setAll_map, Assoc.setAll_map, marked_map,
    marked_map, mergeLayers_markedLayers]

theorem nodup_mergeLayers {β : Type} (layers : List (List (JsString × β))) :
    ((mergeLayers layers).map Prod.fst).Nodup := by
  induction layers using reverseRecOn with
  | nil => simp [mergeLayers]
  | append_singleton layers layer ih =>
    simp only [mergeLayers, foldl_append, foldl_cons, foldl_nil] at ih ⊢
    exact Assoc.nodup_setAll ih layer

theorem nodup_mergeSources {β : Type} {vars : List (JsString × β)}
    (h : (vars.map Prod.fst).Nodup) (synced own : List (JsString × β)) :
    ((mergeSources vars synced own).map Prod.fst).Nodup :=
  Assoc.nodup_setAll (Assoc.nodup_setAll h synced) own

/-! ## Reading the marked merge -/

variable {k v : JsString}

variable {entries : List (JsString × JsString)} {o : Origin}

theorem get_marked {tag : Nat → Origin} : Assoc.get (marked tag entries).reverse k = some (v, o) ↔
      ∃ n, o = tag n ∧ Assoc.IsLast entries n k v := by
  rw [marked, Assoc.get_reverse_mapIdx fun n (w : JsString) => ((w, tag n) : Sourced)]
  constructor
  · rintro ⟨n, w, heq, hlast⟩
    obtain ⟨rfl, rfl⟩ := Prod.mk.inj heq
    exact ⟨n, rfl, hlast⟩
  · rintro ⟨n, rfl, hlast⟩
    exact ⟨n, v, rfl, hlast⟩

theorem get_marked_eq_none
    {tag : Nat → Origin} : Assoc.get (marked tag entries).reverse k = none ↔ k ∉ entries.map Prod.fst := by
  rw [Assoc.get_eq_none_iff]
  have hkeys : (marked tag entries).map Prod.fst = entries.map Prod.fst := by
    conv_rhs => rw [← marked_map tag entries]
    simp
  rw [map_reverse, mem_reverse, hkeys]

variable {text : JsString}

theorem mem_keysOf : k ∈ keysOf text ↔ k ∈ (parseEnvLines text).map Prod.fst := by
  rw [keysOf, mem_eraseDups]

variable {n : Nat}

theorem mem_keysOf_of_isLast (h : Assoc.IsLast (parseEnvLines text) n k v) : k ∈ keysOf text :=
  mem_keysOf.mpr (mem_map.mpr ⟨(k, v), mem_of_getElem? h.1, rfl⟩)

/-- Layer `i` is the last one that defines `k`, and line `n` its last definition. -/
def LastLink (layers : List Layer) (i n : Nat) (k v : JsString) : Prop :=
  ∃ layer, layers[i]? = some layer ∧ Assoc.IsLast (parseEnvLines layer.text) n k v ∧
    ∀ j layer', i < j → layers[j]? = some layer' → k ∉ keysOf layer'.text

variable {layers : List Layer} {i : Nat}

variable {layer : Layer}

theorem lastLink_concat : LastLink (layers ++ [layer]) i n k v ↔
      (i = layers.length ∧ Assoc.IsLast (parseEnvLines layer.text) n k v) ∨
        (k ∉ keysOf layer.text ∧ LastLink layers i n k v) := by
  constructor
  · rintro ⟨l, hl, hlast, hlater⟩
    rcases Nat.lt_trichotomy i layers.length with hlt | rfl | hgt
    · refine Or.inr ⟨hlater layers.length layer hlt (by simp), l, ?_, hlast, ?_⟩
      · rwa [List.getElem?_append_left hlt] at hl
      · intro j l' hj hl'
        have hjlt := (List.getElem?_eq_some_iff.mp hl').1
        exact hlater j l' hj (by rw [List.getElem?_append_left hjlt, hl'])
    · obtain rfl : layer = l := by simpa using hl
      exact Or.inl ⟨rfl, hlast⟩
    · have hlt := (List.getElem?_eq_some_iff.mp hl).1
      simp at hlt
      omega
  · rintro (⟨rfl, hlast⟩ | ⟨hk, l, hl, hlast, hlater⟩)
    · refine ⟨layer, by simp, hlast, fun j l' hj hl' => ?_⟩
      have hlt := (List.getElem?_eq_some_iff.mp hl').1
      simp at hlt
      omega
    · have hlt := (List.getElem?_eq_some_iff.mp hl).1
      refine ⟨l, by rw [List.getElem?_append_left hlt, hl], hlast, fun j l' hj hl' => ?_⟩
      by_cases hjlt : j < layers.length
      · rw [List.getElem?_append_left hjlt] at hl'
        exact hlater j l' hj hl'
      · have hjlt' := (List.getElem?_eq_some_iff.mp hl').1
        obtain rfl : j = layers.length := by
          simp at hjlt'
          omega
        obtain rfl : layer = l' := by simpa using hl'
        exact hk

theorem get_markedLayers : Assoc.get (mergeLayers (markedLayers layers)) k = some (v, o) ↔
      ∃ i n, o = .link i n ∧ LastLink layers i n k v := by
  induction layers using reverseRecOn with
  | nil => simp [markedLayers, mergeLayers, LastLink]
  | append_singleton layers layer ih =>
    have hconcat : mergeLayers (markedLayers (layers ++ [layer])) =
        Assoc.setAll (mergeLayers (markedLayers layers))
          (marked (.link layers.length) (parseEnvLines layer.text)) := by
      simp [markedLayers, mergeLayers, mapIdx_append]
    rw [hconcat, Assoc.get_setAll]
    simp only [lastLink_concat]
    cases hget : Assoc.get (marked (.link layers.length) (parseEnvLines layer.text)).reverse k with
    | some s =>
      obtain ⟨w, o'⟩ := s
      obtain ⟨m, rfl, hm⟩ := get_marked.mp hget
      constructor
      · intro h
        obtain ⟨rfl, rfl⟩ := Prod.mk.inj (some.inj h)
        exact ⟨layers.length, m, rfl, Or.inl ⟨rfl, hm⟩⟩
      · rintro ⟨i, n, rfl, ⟨rfl, hlast⟩ | ⟨hk, -⟩⟩
        · have hget' : Assoc.get (marked (.link layers.length) (parseEnvLines layer.text)).reverse k =
              some (v, .link layers.length n) := get_marked.mpr ⟨n, rfl, hlast⟩
          rw [← hget', hget]
          rfl
        · exact absurd (mem_keysOf_of_isLast hm) hk
    | none =>
      have hk : k ∉ keysOf layer.text := fun hmem =>
        get_marked_eq_none.mp hget (mem_keysOf.mp hmem)
      rw [none_or, ih]
      constructor
      · rintro ⟨i, n, rfl, hlast⟩
        exact ⟨i, n, rfl, Or.inr ⟨hk, hlast⟩⟩
      · rintro ⟨i, n, rfl, ⟨rfl, hlast⟩ | ⟨-, hlast⟩⟩
        · exact absurd (mem_keysOf_of_isLast hlast) hk
        · exact ⟨i, n, rfl, hlast⟩

theorem get_vars_of_lastLink
    (h : LastLink layers i n k v) : Assoc.get (scanLayers layers).vars k = some v := by
  rw [← mergeLayers_markedLayers, Assoc.get_map (fun s : Sourced => s.1),
    get_markedLayers.mpr ⟨i, n, rfl, h⟩]
  rfl

/-! ## Where a value comes from -/

theorem mem_syncedSecrets {app : EnvOwner} {fetched : Option SecretMap} {e : JsString × JsString} :
    e ∈ syncedSecrets app fetched ↔
      app.secretSync = true ∧ isEnvName e.1 = true ∧ ∃ secrets ∈ fetched, e ∈ secrets.entries := by
  cases fetched with
  | none => simp [syncedSecrets]
  | some secrets =>
    cases hsync : app.secretSync with
    | false => simp [syncedSecrets, hsync]
    | true => simp [syncedSecrets, hsync, and_comm]

theorem nodup_syncedSecrets (app : EnvOwner) (fetched : Option SecretMap) :
    ((syncedSecrets app fetched).map Prod.fst).Nodup := by
  cases fetched with
  | none => simp [syncedSecrets]
  | some secrets =>
    simp only [syncedSecrets]
    split
    · exact secrets.nodup.sublist (filter_sublist.map Prod.fst)
    · simp

section Sources
variable {layers : List Layer} {synced own : List (JsString × JsString)} {k v : JsString}

theorem get_origins_iff : Assoc.get (origins layers synced own) k = some (v, o) ↔
      (∃ n, o = .own n ∧ Assoc.IsLast own n k v) ∨
      (k ∉ own.map Prod.fst ∧ ((∃ n, o = .source ∧ Assoc.IsLast synced n k v) ∨
        (k ∉ synced.map Prod.fst ∧ ∃ i n, o = .link i n ∧ LastLink layers i n k v))) := by
  rw [origins, mergeSources, Assoc.get_setAll, Assoc.get_setAll, or_eq_some_iff,
    or_eq_some_iff, get_marked_eq_none, get_marked_eq_none, get_marked, get_marked,
    get_markedLayers]

/-- The own env wins: its last definition takes effect. -/
theorem get_origins_own :
    Assoc.get (origins layers synced own) k = some (v, .own n) ↔ Assoc.IsLast own n k v := by
  rw [get_origins_iff]
  simp

theorem get_origins_source (hsynced : (synced.map Prod.fst).Nodup) :
    Assoc.get (origins layers synced own) k = some (v, .source) ↔
      k ∉ own.map Prod.fst ∧ (k, v) ∈ synced := by
  rw [get_origins_iff, ← Assoc.exists_isLast_iff hsynced]
  simp

/-- Then the last definition of the last link. -/
theorem get_origins_link : Assoc.get (origins layers synced own) k = some (v, .link i n) ↔
      k ∉ own.map Prod.fst ∧ k ∉ synced.map Prod.fst ∧ LastLink layers i n k v := by
  rw [get_origins_iff]
  simp

end Sources

/-! ## The view agrees with the merge -/

theorem mem_later_iff : k ∈ ((layers.map fun layer => keysOf layer.text).drop (i + 1)).flatten ↔
      ∃ j layer, i < j ∧ layers[j]? = some layer ∧ k ∈ keysOf layer.text := by
  rw [← map_drop, mem_flatten]
  constructor
  · rintro ⟨keys, hkeys, hk⟩
    obtain ⟨layer, hlayer, rfl⟩ := mem_map.mp hkeys
    obtain ⟨d, hd⟩ := List.getElem?_of_mem hlayer
    rw [List.getElem?_drop] at hd
    exact ⟨i + 1 + d, layer, by omega, hd, hk⟩
  · rintro ⟨j, layer, hij, hj, hk⟩
    refine ⟨keysOf layer.text, mem_map.mpr ⟨layer, ?_, rfl⟩, hk⟩
    apply mem_of_getElem? (i := j - (i + 1))
    rw [List.getElem?_drop, ← hj]
    congr 1
    omega

/-- **The conflict view agrees with the merge**: without a synced source, a key
of a link takes effect exactly when the view shows it neither as shadowed nor as
overridden. -/
theorem takesEffect_iff {env : JsString} {conflict : LinkConflict}
    (hlayer : layers[i]? = some layer) (hk : k ∈ keysOf layer.text)
    (hconflict : (linkConflicts (layers.map fun l => keysOf l.text) (keysOf env))[i]? =
      some conflict) :
    (∃ v n, Assoc.get (origins layers [] (parseEnvLines env)) k = some (v, .link i n)) ↔
      k ∉ conflict.shadowedKeys ∧ k ∉ conflict.overriddenByOwnEnv := by
  have hview : k ∉ conflict.shadowedKeys ∧ k ∉ conflict.overriddenByOwnEnv ↔ k ∉ keysOf env ∧
        ¬ ∃ j layer, i < j ∧ layers[j]? = some layer ∧ k ∈ keysOf layer.text := by
    simp only [linkConflicts, List.getElem?_mapIdx, List.getElem?_map, hlayer, map_some,
      some.injEq] at hconflict
    subst hconflict
    simp only [mem_filter, hk, decide_eq_true_eq, true_and, ← mem_later_iff]
    tauto
  rw [hview]
  simp only [get_origins_link, map_nil, not_mem_nil, not_false_eq_true, true_and, ← mem_keysOf]
  constructor
  · rintro ⟨v, n, hown, -, -, -, hlater⟩
    refine ⟨hown, ?_⟩
    rintro ⟨j, layer', hij, hj, hk'⟩
    exact hlater j layer' hij hj hk'
  · rintro ⟨hown, hlater⟩
    obtain ⟨n, v, hlast⟩ := Assoc.exists_isLast_of_mem (mem_keysOf.mp hk)
    exact ⟨v, n, hown, layer, hlayer, hlast, fun j layer' hij hj hk' => hlater ⟨j, layer', hij, hj, hk'⟩⟩

/-! ## The environment of a successful `resolve` -/

section Resolve
variable {svc : Services} {layers : List Layer} {app : EnvOwner} {opts : ResolveOptions}
  {fetched : Option SecretMap}

/-- Each merged value, marked with where it is defined. -/
def sourcesOf (layers : List Layer) (app : EnvOwner) (fetched : Option SecretMap) :
    List (JsString × Sourced) :=
  origins layers (syncedSecrets app fetched) (parseEnvLines app.env)

theorem sourcesOf_map : (sourcesOf layers app fetched).map (fun s => (s.1, s.2.1)) =
    (contextOf svc layers app opts fetched).merged :=
  origins_map layers _ _

theorem nodup_sourcesOf : ((sourcesOf layers app fetched).map Prod.fst).Nodup :=
  nodup_mergeSources (nodup_mergeLayers _) _ _

variable {s : JsString × Sourced}

/-- A value is literal exactly when it comes from the secret source. -/
theorem isLiteral_iff (hs : s ∈ sourcesOf layers app fetched) :
    (contextOf svc layers app opts fetched).isLiteral s.1 = true ↔ s.2.2 = .source := by
  obtain ⟨k, v, o⟩ := s
  have hget : Assoc.get (sourcesOf layers app fetched) k = some (v, o) :=
    Assoc.get_of_mem nodup_sourcesOf hs
  rw [ResolveContext.isLiteral_iff_mem]
  change k ∈ (syncedSecrets app fetched).map Prod.fst ∧ k ∉ (parseEnvLines app.env).map Prod.fst ↔ _
  cases o with
  | own n =>
    have hmem := mem_keysOf.mp (mem_keysOf_of_isLast (get_origins_own.mp hget))
    simp [hmem]
  | source =>
    obtain ⟨hown, hsynced⟩ := (get_origins_source (nodup_syncedSecrets app fetched)).mp hget
    exact ⟨fun _ => rfl, fun _ => ⟨mem_map_of_mem hsynced, hown⟩⟩
  | link i n =>
    obtain ⟨-, hsynced, -⟩ := get_origins_link.mp hget
    simp [hsynced]

theorem shown_eq_final (hs : s ∈ sourcesOf layers app fetched) :
    (contextOf svc layers app opts fetched).shown (s.1, s.2.1) =
      (contextOf svc layers app opts fetched).final s.2 := by
  have hlit : (contextOf svc layers app opts fetched).isLiteral s.1 = true ↔ s.2.2 = .source :=
    isLiteral_iff hs
  obtain ⟨k, v, o⟩ := s
  rw [ResolveContext.shown, ResolveContext.final]
  cases o <;> simp_all

variable {key : JsString}

theorem entryKey_lineOf (h : cu '=' ∉ key) (value : JsString) :
    entryKey (lineOf key value) = key := by
  refine (takeWhile_append_stops ?_ (stops_cons (by decide) value)).1
  intro c hc
  rw [bne_iff_ne]
  rintro rfl
  exact h hc

theorem equals_notMem_of_isEnvName (h : isEnvName key = true) : cu '=' ∉ key := by
  cases key with
  | nil => simp
  | cons c cs =>
    simp only [isEnvName, Bool.and_eq_true, List.all_eq_true] at h
    intro hmem
    rcases mem_cons.mp hmem with rfl | hmem
    · exact absurd h.1 (by decide)
    · exact absurd (h.2 _ hmem) (by decide)

/-- Every name of the environment stands in a line of a text, or is a proper name. -/
theorem entry_or_name (hs : s ∈ sourcesOf layers app fetched) :
    (∃ value, Entry s.1 value) ∨ isEnvName s.1 = true := by
  have hget : Assoc.get (sourcesOf layers app fetched) s.1 = some s.2 :=
    Assoc.get_of_mem nodup_sourcesOf hs
  obtain ⟨k, v, o⟩ := s
  cases o with
  | own n => exact Or.inl ⟨v, entry_of_mem (mem_of_getElem? (get_origins_own.mp hget).1)⟩
  | source =>
    obtain ⟨-, hsynced⟩ := (get_origins_source (nodup_syncedSecrets app fetched)).mp hget
    exact Or.inr (mem_syncedSecrets.mp hsynced).2.1
  | link i n =>
    obtain ⟨-, -, layer, -, hlast, -⟩ := get_origins_link.mp hget
    exact Or.inl ⟨v, entry_of_mem (mem_of_getElem? hlast.1)⟩

/-- No name of the environment holds a `=`. -/
theorem equals_notMem_key (hs : s ∈ sourcesOf layers app fetched) : cu '=' ∉ s.1 := by
  rcases entry_or_name hs with ⟨value, hentry⟩ | hname
  · exact hentry.no_eq
  · exact equals_notMem_of_isEnvName hname

theorem entryKey_render {ctx : ResolveContext}
    (hs : s ∈ sourcesOf layers app fetched) : entryKey (ctx.render s) = s.1 :=
  entryKey_lineOf (equals_notMem_key hs) _

end Resolve

/-! ## A source, two links and an own env -/

/-- A source with one secret and a project without databases. -/
def oneSecret : Services where
  fetch _ := .ok ⟨[(js "TOKEN", js "t0p-s3cret")], by decide⟩
  findDatabase _ _ := none
  password _ := .ok []

def hostLinks : List Layer :=
  [⟨js "HOST=a.example.com\nLOG=info\nTOKEN=none", [], proto_notMem_nil⟩,
    ⟨js "HOST=b.example.com", [], proto_notMem_nil⟩]

def syncedOwner : EnvOwner where
  projectId := js "p"
  env := js "LOG=debug\nURL=https://$\x7b\x7bvars.HOST\x7d\x7d"
  secretConnectionId := some (js "c")
  secretProjectId := some (js "p")
  secretEnvironment := some (js "prod")
  secretPath := none
  secretSync := true

end Aoox
