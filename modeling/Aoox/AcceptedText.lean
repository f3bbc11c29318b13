import Aoox.LayerMerge
import Aoox.Grouping

/-! # Accepted texts

`validateEnvironmentText` and `resolve` read a value in different ways: the one
counts the openings `${{` and the matches of `REFERENCE` and looks at the scope of
each match, the other goes through the matches and branches on the scope itself.
A match holds no opening but the one it starts with, so equal counts mean that
every opening starts a match (`opens_match`), and the scopes that pass the check
are those the resolver knows (`expandReference_error`).  What is left to go wrong
in an accepted text is that something it names is not there.
-/
namespace Aoox

open JsString List Option

/-! ## Lines -/

/-- The lines that are neither blank nor comments. -/
def variableLines (text : JsString) : List JsString :=
  (splitLines text).filter fun raw => !isSkipped (trim raw)

variable {i : Nat} {s s' : LineScan}

/-- A line that passes the strict check is skipped or defines a new, validly named variable. -/
theorem checkLine_ok {raw : JsString} (h : checkLine i raw s = .ok s') :
    (isSkipped (trim raw) = true ∧ s' = s) ∨
      ∃ e, isSkipped (trim raw) = false ∧ parseLine raw = some e ∧ isEnvName e.1 = true ∧
        e.1 ∉ s.seen ∧ s' = ⟨s.seen ++ [e.1], s.values ++ [e.2]⟩ := by
  rw [checkLine] at h
  by_cases hskip : isSkipped (trim raw) = true
  · rw [if_pos hskip] at h
    exact .inl ⟨hskip, (Except.ok.inj h).symm⟩
  · rw [if_neg hskip] at h
    cases hassign : assignment (trim raw) with
    | none =>
      rw [hassign] at h
      cases h
    | some e =>
      obtain ⟨key, value⟩ := e
      rw [hassign] at h
      simp only at h
      split at h
      · cases h
      rename_i hname
      split at h
      · cases h
      rename_i hseen
      refine .inr ⟨(key, value), by simpa using hskip, ?_, by simpa using hname, hseen,
        (Except.ok.inj h).symm⟩
      rw [parseLine, if_neg hskip, hassign]

theorem checkLines_spec {raws : List JsString} (h : checkLines i raws s = .ok s')
    (hseen : s.seen.Nodup) :
    s'.seen = s.seen ++ (raws.filterMap parseLine).map Prod.fst ∧
      s'.values = s.values ++ (raws.filterMap parseLine).map Prod.snd ∧ s'.seen.Nodup ∧
      (∀ e ∈ raws.filterMap parseLine, isEnvName e.1 = true) ∧
      (raws.filter fun raw => !isSkipped (trim raw)).map parseLine =
        (raws.filterMap parseLine).map some := by
  induction raws generalizing i s with
  | nil =>
    obtain rfl := Except.ok.inj h
    exact ⟨by simp, by simp, hseen, by simp, rfl⟩
  | cons raw raws ih =>
    obtain ⟨mid, hline, hrest⟩ := bind_eq_ok.mp h
    rcases checkLine_ok hline with ⟨hskip, rfl⟩ | ⟨e, hskip, hparse, hname, hnew, rfl⟩
    · have hnone : parseLine raw = none := by rw [parseLine, if_pos hskip]
      rw [filterMap_cons, hnone, filter_cons_of_neg (by simp [hskip])]
      exact ih hrest hseen
    · have hseen' : (s.seen ++ [e.1]).Nodup :=
        nodup_append.mpr ⟨hseen, by simp, by rintro a ha b hb rfl; simp_all⟩
      obtain ⟨h1, h2, h3, h4, h5⟩ := ih hrest hseen'
      rw [filterMap_cons, hparse, filter_cons_of_pos (by simp [hskip])]
      refine ⟨by simp [h1], by simp [h2], h3, fun x hx => ?_, by simp [h5, hparse]⟩
      rcases mem_cons.mp hx with rfl | hx
      · exact hname
      · exact h4 x hx

structure Accepted (text : JsString) : Prop where
  nodup : ((parseEnvLines text).map Prod.fst).Nodup
  names : ∀ e ∈ parseEnvLines text, isEnvName e.1 = true
  lines : (variableLines text).map parseLine = (parseEnvLines text).map some
  values : ∀ e ∈ parseEnvLines text, checkValue e.2 = none

variable {text : JsString}

theorem accepted_of_validate (h : validateEnvironmentText text = none) : Accepted text := by
  rw [validateEnvironmentText] at h
  split at h
  · cases h
  cases hlines : checkLines 0 (splitLines text) ⟨[], []⟩ with
  | error message =>
    rw [hlines] at h
    cases h
  | ok s =>
    rw [hlines] at h
    obtain ⟨hseen, hvalues, hnodup, hnames, hall⟩ := checkLines_spec hlines nodup_nil
    rw [nil_append] at hseen hvalues
    refine ⟨?_, hnames, hall, fun e he => ?_⟩
    · rw [hseen] at hnodup
      exact hnodup
    · refine List.findSome?_eq_none_iff.mp h e.2 ?_
      rw [hvalues]
      exact mem_map_of_mem he

/-! ## Openings -/

/-- The positions at which `${{` stands. -/
def openings : JsString → Nat
  | [] => 0
  | c :: cs => (if openBraces <+: c :: cs then 1 else 0) + openings cs

attribute [local simp] openings

/-- The positions at which a reference starts. -/
def starts : JsString → Nat
  | [] => 0
  | c :: cs => (if (matchReference (c :: cs)).isSome then 1 else 0) + starts cs

theorem openBraces_prefix_of_match (h : (matchReference text).isSome = true) :
    openBraces <+: text := by
  obtain ⟨m, hm⟩ := isSome_iff_exists.mp h
  obtain ⟨left, right, rest, hformed, rfl⟩ := formed_of_matchReference hm
  rw [hformed.whole, append_assoc]
  exact prefix_append _ _

theorem starts_le_openings (text : JsString) : starts text ≤ openings text := by
  induction text with
  | nil => exact le_rfl
  | cons c cs ih =>
    rw [starts, openings]
    by_cases h : (matchReference (c :: cs)).isSome = true
    · rw [if_pos h, if_pos (openBraces_prefix_of_match h)]
      omega
    · rw [if_neg h]
      omega

variable {a b : JsString}

/-- Where the counts agree, each opening is the start of a reference. -/
theorem match_of_counts (h : openings text ≤ starts text)
    (htext : text = a ++ openBraces ++ b) : (matchReference (openBraces ++ b)).isSome = true := by
  induction text generalizing a with
  | nil =>
    have hlen := congrArg List.length htext
    have hbraces : openBraces.length = 3 := rfl
    rw [length_append, length_append, hbraces, length_nil] at hlen
    omega
  | cons c cs ih =>
    rw [openings, starts] at h
    have hle := starts_le_openings cs
    cases a with
    | nil =>
      have hpre : openBraces <+: c :: cs := ⟨b, by simpa using htext.symm⟩
      rw [if_pos hpre] at h
      have hsome : (matchReference (c :: cs)).isSome = true := by
        by_contra hno
        rw [if_neg hno] at h
        omega
      rwa [htext, nil_append] at hsome
    | cons d ds =>
      obtain ⟨-, hcs⟩ := List.cons.inj htext
      refine ih ?_ hcs
      by_cases hpre : (matchReference (c :: cs)).isSome = true
      · rw [if_pos hpre, if_pos (openBraces_prefix_of_match hpre)] at h
        omega
      · rw [if_neg hpre] at h
        omega

variable {c : CodeUnit}

theorem openBraces_prefix_cons {cs : JsString} (h : openBraces <+: c :: cs) :
    c = cu '$' ∧ ∃ rest, cs = cu '\x7b' :: cu '\x7b' :: rest := by
  obtain ⟨rest, hrest⟩ := h
  obtain ⟨rfl, rfl⟩ := List.cons.inj hrest
  exact ⟨rfl, rest, rfl⟩

theorem openings_brace (rest : JsString) : openings (cu '\x7b' :: rest) = openings rest := by
  rw [openings, if_neg fun h => absurd (openBraces_prefix_cons h).1 (by decide), Nat.zero_add]

/-- The openings are the separators `split` finds. -/
theorem length_split_openBraces (text : JsString) :
    (split text openBraces).length = openings text + 1 := by
  have hlen : openBraces.length - 1 = 2 := rfl
  have go : ∀ k (text : JsString), (splitGo openBraces k text).length =
      openings (text.drop k) + 1 := by
    intro k text
    induction text generalizing k with
    | nil => cases k <;> rfl
    | cons c cs ih =>
      cases k with
      | succ k => exact ih k
      | zero =>
        rw [splitGo, drop_zero, openings]
        by_cases hpre : openBraces <+: c :: cs
        · rw [if_pos hpre, if_pos hpre, length_cons, ih, hlen]
          obtain ⟨-, rest, rfl⟩ := openBraces_prefix_cons hpre
          rw [openings_brace, openings_brace]
          simp only [drop_succ_cons, drop_zero]
          omega
        · have hcons : (consFirst c (splitGo openBraces 0 cs)).length =
              (splitGo openBraces 0 cs).length := by
            obtain ⟨p, ps, hps⟩ := exists_cons_of_ne_nil (splitGo_ne_nil openBraces 0 cs)
            rw [hps]
            rfl
          rw [if_neg hpre, if_neg hpre, hcons, ih, drop_zero, Nat.zero_add]
  exact go 0 text

/-! ## A match holds no second opening -/

variable {m : Reference}

theorem Reference.Formed.behind_opening {left right : JsString}
    (h : m.Formed left right) : ∃ inner, m.whole = openBraces ++ inner ++ [cu '\x7d'] ∧
      cu '\x7b' ∉ inner := by
  have class_notMem : ∀ {p : CodeUnit → Bool} {text : JsString}, p (cu '\x7b') = false →
      (∀ c ∈ text, p c = true) → cu '\x7b' ∉ text := by
    intro p text hp hall hmem
    rw [hall _ hmem] at hp
    cases hp
  have group_notMem : ∀ {sep : CodeUnit} {p : CodeUnit → Bool} {group : Option JsString},
      sep ≠ cu '\x7b' → p (cu '\x7b') = false → (∀ g ∈ group, g ≠ [] ∧ ∀ c ∈ g, p c = true) →
        cu '\x7b' ∉ groupText sep group := by
    intro sep p group hsep hp hall
    cases group with
    | none => simp [groupText]
    | some g =>
      rw [groupText, mem_cons, not_or]
      exact ⟨Ne.symm hsep, class_notMem hp (hall g rfl).2⟩
  refine ⟨left ++ (m.scope ++ (cu '.' :: (m.name ++ (groupText (cu '.') m.field ++
    (groupText (cu ':') m.database ++ (right ++ [cu '\x7d'])))))), ?_, ?_⟩
  · rw [h.whole]
    simp only [append_assoc, cons_append, nil_append]
    rfl
  · simp only [mem_append, mem_cons, not_or]
    exact ⟨class_notMem (by decide) h.space_left, class_notMem (by decide) h.scope, by decide,
      class_notMem (by decide) h.name, group_notMem (by decide) (by decide) h.field,
      group_notMem (by decide) (by decide) h.database, class_notMem (by decide) h.space_right,
      by decide, not_mem_nil⟩

theorem starts_append {inner : JsString} (h : cu '\x7b' ∉ inner) (rest : JsString) :
    starts (inner ++ cu '\x7d' :: rest) = starts (cu '\x7d' :: rest) := by
  induction inner with
  | nil => rfl
  | cons c cs ih =>
    rw [mem_cons, not_or] at h
    have hno : ¬ (matchReference (c :: (cs ++ cu '\x7d' :: rest))).isSome = true := by
      intro hsome
      obtain ⟨-, tail, htail⟩ := openBraces_prefix_cons (openBraces_prefix_of_match hsome)
      cases cs with
      | nil => exact absurd (List.cons.inj htail).1 (by decide)
      | cons d ds => exact h.2 (by rw [(List.cons.inj htail).1]; exact mem_cons_self)
    rw [cons_append, starts, if_neg hno, Nat.zero_add, ih h.2]

theorem starts_cons_ne (hc : c ≠ cu '$') (rest : JsString) : starts (c :: rest) = starts rest := by
  have hno : ¬ (matchReference (c :: rest)).isSome = true := fun hsome =>
    hc (openBraces_prefix_cons (openBraces_prefix_of_match hsome)).1
  rw [starts, if_neg hno, Nat.zero_add]

/-- `matchAll` finds every start. -/
theorem length_references (value : JsString) : (references value).length = starts value := by
  have go : ∀ k (text : JsString), (referencesGo k text).length = starts (text.drop k) := by
    intro k text
    induction text generalizing k with
    | nil => cases k <;> rfl
    | cons c cs ih =>
      cases k with
      | succ k => exact ih k
      | zero =>
        rw [drop_zero, referencesGo, starts]
        cases hm : matchReference (c :: cs) with
        | none =>
          simp only [isSome_none, Bool.false_eq_true, if_false, Nat.zero_add]
          rw [ih, drop_zero]
        | some m =>
          obtain ⟨left, right, rest, hformed, htext⟩ := formed_of_matchReference hm
          obtain ⟨inner, hwhole, hinner⟩ := hformed.behind_opening
          have hcs : cs = cu '\x7b' :: cu '\x7b' :: (inner ++ cu '\x7d' :: rest) := by
            rw [hwhole] at htext
            exact (List.cons.inj (htext.trans (by simp [openBraces]; rfl))).2
          have hskip : cs.drop (m.whole.length - 1) = rest := by
            have hdrop : (c :: cs).drop m.whole.length = rest := by
              rw [htext, drop_left]
            have hpos : m.whole.length = m.whole.length - 1 + 1 := by
              have := hformed.whole_ne
              omega
            rwa [hpos, drop_succ_cons] at hdrop
          have hstarts : starts cs = starts rest := by
            rw [hcs, starts_cons_ne (by decide), starts_cons_ne (by decide), starts_append hinner,
              starts_cons_ne (by decide)]
          simp only [length_cons, ih, hskip, hstarts, isSome_some, if_true]
          omega
  exact go 0 value

/-- **In a value that passes the check every `${{` starts a reference.** -/
theorem opens_match {value : JsString} (h : checkValue value = none)
    (hvalue : value = a ++ openBraces ++ b) : (matchReference (openBraces ++ b)).isSome = true := by
  rw [checkValue] at h
  split at h
  · cases h
  rename_i hcount
  rw [not_not, length_split_openBraces, length_references, Nat.add_sub_cancel] at hcount
  exact match_of_counts hcount.le hvalue

/-! ## What the resolver raises -/

/-- Something a reference names is not there: a variable of the links, the secret source or a
secret in it, a database; or a database is there and the service that is asked for its
connection fails. -/
inductive Missing (ctx : ResolveContext) (key : JsString) (m : Reference) : ResolveError → Prop
  | variable (h : Assoc.get ctx.vars m.name = none) : Missing ctx key m (unknownVariable key m)
  | source (h : ctx.active = false) : Missing ctx key m (noSource ctx.app key m)
  | secret {secrets : SecretMap} (hfetched : ctx.fetched = some secrets)
      (h : Assoc.get secrets.entries m.name = none) :
        Missing ctx key m (unknownSecret ctx.app key m)
  | database {err : ResolveError} (h : ctx.svc.findDatabase ctx.app.projectId m.name = none)
      (herr : databaseFields ctx.svc ctx.app.projectId m.name key m.whole m.database = .error err) :
      Missing ctx key m err
  | connection {db : ManagedDatabase} {err : ResolveError}
      (h : ctx.svc.findDatabase ctx.app.projectId m.name = some db)
      (herr : connectionFields ctx.svc db m.database = .error err) : Missing ctx key m err

theorem bind_eq_error {ε α β : Type} {x : Except ε α} {f : α → Except ε β} {err : ε} :
    x.bind f = .error err ↔ x = .error err ∨ ∃ a, x = .ok a ∧ f a = .error err := by
  cases x with
  | error e => simp [Except.bind]
  | ok a => simp [Except.bind]

theorem map_eq_error {ε α β : Type} {x : Except ε α} {f : α → β} {err : ε} :
    x.map f = .error err ↔ x = .error err := by
  cases x with
  | error e => simp [Except.map]
  | ok a => simp [Except.map]

variable {ctx : ResolveContext} {key : JsString} {m : Reference} {s : Expansion}
  {err : ResolveError}

theorem expandSecret_error (h : expandSecret ctx key m = .error err) : Missing ctx key m err := by
  rw [expandSecret] at h
  split at h
  · rename_i hactive
    obtain rfl := Except.error.inj h
    exact .source (by simpa using hactive)
  · cases hfetched : ctx.fetched with
    | none =>
      rw [hfetched] at h
      cases h
    | some secrets =>
      cases hget : Assoc.get secrets.entries m.name with
      | none =>
        simp only [hfetched, hget] at h
        obtain rfl := Except.error.inj h
        exact .secret hfetched hget
      | some v => simp [hfetched, hget] at h

theorem expandDatabase_error (h : expandDatabase ctx key m s = .error err) :
    Missing ctx key m err := by
  rw [expandDatabase] at h
  cases hcache : Assoc.get s.dbCache (cacheKey m) with
  | some fields =>
    rw [hcache] at h
    cases h
  | none =>
    rw [hcache] at h
    have herr := map_eq_error.mp h
    cases hdb : ctx.svc.findDatabase ctx.app.projectId m.name with
    | none => exact .database hdb herr
    | some db =>
      rw [databaseFields, hdb] at herr
      exact .connection hdb herr

/-- **A reference fails because something is missing, or because its form was never accepted.** -/
theorem expandReference_error (h : expandReference ctx key m s = .error err) :
    Missing ctx key m err ∨ err = unknownReference key m ∧ checkReference m ≠ none := by
  rw [expandReference] at h
  split at h
  · cases hget : Assoc.get ctx.vars m.name with
    | none =>
      rw [hget] at h
      obtain rfl := Except.error.inj h
      exact .inl (.variable hget)
    | some v =>
      rw [hget] at h
      cases h
  rename_i hvars
  split at h
  · exact .inl (expandSecret_error (map_eq_error.mp h))
  rename_i hsecret
  split at h
  · exact .inl (expandDatabase_error (map_eq_error.mp h))
  rename_i hdatabase
  refine .inr ⟨(Except.error.inj h).symm, fun hcheck => ?_⟩
  rw [checkReference] at hcheck
  split at hcheck
  · rename_i hscope
    split at hcheck
    · cases hcheck
    rename_i hfield
    have hnone : m.field = none := by simpa using hfield
    rcases hscope with hscope | hscope
    · exact hvars ⟨hscope, hnone⟩
    · exact hsecret ⟨hscope, hnone⟩
  split at hcheck
  · cases hcheck
  split at hcheck
  · rename_i hscope
    split at hcheck
    · rename_i hfield
      exact hdatabase ⟨hscope, by simpa [isDatabaseField] using hfield⟩
    · cases hcheck
  · cases hcheck

theorem expandMatches_error {ms : List (JsString × Reference)} {resolved : JsString}
    (h : expandMatches ctx key ms resolved s = .error err) :
    ∃ g ∈ ms, ∃ s, expandReference ctx key g.2 s = .error err := by
  induction ms generalizing resolved s with
  | nil => cases h
  | cons g ms ih =>
    obtain ⟨gap, m⟩ := g
    rcases bind_eq_error.mp h with herr | ⟨r, -, hrest⟩
    · exact ⟨(gap, m), mem_cons_self, s, herr⟩
    · obtain ⟨g, hg, hexpand⟩ := ih hrest
      exact ⟨g, mem_cons_of_mem _ hg, hexpand⟩

/-- A reference in a value of `e` is what failed. -/
def FailsAt (ctx : ResolveContext) (e : JsString × JsString) (err : ResolveError) : Prop :=
  ctx.isLiteral e.1 = false ∧ ∃ m ∈ references e.2, Missing ctx e.1 m err ∨
    err = unknownReference e.1 m ∧ checkReference m ≠ none

variable {e : JsString × JsString}

theorem resolveEntry_error (h : resolveEntry ctx s e = .error err) : FailsAt ctx e err := by
  rw [resolveEntry] at h
  split at h
  · cases h
  rename_i hliteral
  obtain ⟨g, hg, s', hexpand⟩ := expandMatches_error (map_eq_error.mp h)
  refine ⟨by simpa using hliteral, g.2, ?_, expandReference_error hexpand⟩
  rw [references_eq_cut]
  exact mem_map_of_mem hg

theorem foldlM_resolveEntry_error {es : List (JsString × JsString)}
    (h : es.foldlM (resolveEntry ctx) s = .error err) : ∃ e ∈ es, FailsAt ctx e err := by
  induction es generalizing s with
  | nil => cases h
  | cons e es ih =>
    rw [foldlM_cons] at h
    rcases bind_eq_error.mp h with herr | ⟨s', -, hrest⟩
    · exact ⟨e, mem_cons_self, resolveEntry_error herr⟩
    · obtain ⟨x, hx, hfails⟩ := ih hrest
      exact ⟨x, mem_cons_of_mem _ hx, hfails⟩

variable {svc : Services} {layers : List Layer} {app : EnvOwner} {opts : ResolveOptions}

/-- A value that is expanded stands in a linked environment or in the own env. -/
theorem text_of_mem_merged {fetched : Option SecretMap}
    (he : e ∈ (contextOf svc layers app opts fetched).merged)
    (hliteral : (contextOf svc layers app opts fetched).isLiteral e.1 = false) :
    ∃ text ∈ app.env :: layers.map Layer.text, e ∈ parseEnvLines text := by
  have hvars : (contextOf svc layers app opts fetched).vars =
      mergeLayers (layers.map fun layer => parseEnvLines layer.text) := scanLayers_vars layers
  have hnodup : ((contextOf svc layers app opts fetched).vars.map Prod.fst).Nodup := by
    rw [hvars]
    exact nodup_mergeLayers _
  have hget := Assoc.get_of_mem (nodup_mergeSources hnodup _ _) he
  rw [mergeSources, Assoc.get_setAll, Assoc.get_setAll, or_eq_some_iff, or_eq_some_iff] at hget
  rcases hget with hown | ⟨hown, hsynced | ⟨-, hlayer⟩⟩
  · exact ⟨app.env, mem_cons_self, mem_reverse.mp (Assoc.mem_of_get hown)⟩
  · -- a secret of the source that the own env does not overwrite is never expanded
    have hnot : e.1 ∉ (contextOf svc layers app opts fetched).own.map Prod.fst := by
      rw [Assoc.get_eq_none_iff, map_reverse, mem_reverse] at hown
      exact hown
    have hmem : e.1 ∈ (contextOf svc layers app opts fetched).synced.map Prod.fst :=
      mem_map_of_mem (f := Prod.fst) (mem_reverse.mp (Assoc.mem_of_get hsynced))
    rw [ResolveContext.isLiteral_iff_mem.mpr ⟨hmem, hnot⟩] at hliteral
    cases hliteral
  · rw [hvars] at hlayer
    have hfold : ∀ (ls : List (List (JsString × JsString))),
        Assoc.get (mergeLayers ls) e.1 = some e.2 → ∃ entries ∈ ls, e ∈ entries := by
      intro ls
      induction ls using reverseRecOn with
      | nil => exact fun h => by cases h
      | append_singleton ls entries ih =>
        intro h
        rw [mergeLayers, foldl_concat, Assoc.get_setAll, or_eq_some_iff] at h
        rcases h with h | ⟨-, h⟩
        · exact ⟨entries, by simp, mem_reverse.mp (Assoc.mem_of_get h)⟩
        · obtain ⟨x, hx, hmem⟩ := ih h
          exact ⟨x, mem_append_left _ hx, hmem⟩
    obtain ⟨entries, hentries, hmem⟩ := hfold _ hlayer
    obtain ⟨layer, hlayer, rfl⟩ := mem_map.mp hentries
    exact ⟨layer.text, mem_cons_of_mem _ (mem_map_of_mem hlayer), hmem⟩

/-- In an accepted text every reference has a form the resolver knows. -/
theorem Accepted.checkReference (h : Accepted text) (he : e ∈ parseEnvLines text)
    (hm : m ∈ references e.2) : Aoox.checkReference m = none := by
  have hvalue := h.values e he
  rw [checkValue] at hvalue
  split at hvalue
  · cases hvalue
  · exact List.findSome?_eq_none_iff.mp hvalue m hm

theorem fetchSecrets_error (h : fetchSecrets svc layers app opts = .error err) :
    ∃ selection, svc.fetch selection = .error err := by
  rw [fetchSecrets] at h
  split at h
  · split at h
    · cases h
    · rename_i message hfetch
      split at h
      · cases h
      · exact ⟨_, hfetch.trans (by rw [Except.error.inj h])⟩
    · rename_i other _ hfetch
      exact ⟨_, hfetch.trans (by rw [Except.error.inj h])⟩
  · cases h

/-! ## What acceptance promises -/

/-- What can be relied on in a text.  `resolves` is about a run with any linked environments and
any own env: an error of unknown form is never about a line of this text, and if all texts of the
run are accepted there is none. -/
structure Reliable (text : JsString) : Prop where
  names : (keysOf text).Nodup ∧ ∀ key ∈ keysOf text, isEnvName key = true
  oneEach : (variableLines text).map (fun l => (parseLine l).map Prod.fst) = (keysOf text).map some
  opens : ∀ e ∈ parseEnvLines text, ∀ a b, e.2 = a ++ openBraces ++ b →
    (matchReference (openBraces ++ b)).isSome = true
  reference : ∀ e ∈ parseEnvLines text, ∀ m ∈ references e.2, ∀ ctx key s err,
    expandReference ctx key m s = .error err → Missing ctx key m err
  resolves : ∀ svc layers app opts err, resolve svc layers app opts = .error err →
    (∃ selection, svc.fetch selection = .error err) ∨
      ∃ fetched, ∃ e ∈ (contextOf svc layers app opts fetched).merged, ∃ m ∈ references e.2,
        Missing (contextOf svc layers app opts fetched) e.1 m err ∨
          err = unknownReference e.1 m ∧ e ∉ parseEnvLines text ∧
            ∃ other ∈ app.env :: layers.map Layer.text,
              e ∈ parseEnvLines other ∧ validateEnvironmentText other ≠ none

/-- **An accepted text is reliable.** -/
theorem reliable_of_accepted {text : JsString} (h : validateEnvironmentText text = none) :
    Reliable text := by
  have hok := accepted_of_validate h
  have hkeys : keysOf text = (parseEnvLines text).map Prod.fst :=
      Grouping.eraseDups_eq_self hok.nodup
  refine ⟨⟨?_, ?_⟩, ?_, ?_, ?_, ?_⟩
  · rw [hkeys]
    exact hok.nodup
  · intro key hkey
    rw [hkeys] at hkey
    obtain ⟨e, he, rfl⟩ := List.mem_map.mp hkey
    exact hok.names e he
  · have hlines := congrArg (List.map (Option.map Prod.fst)) hok.lines
    rw [List.map_map, List.map_map] at hlines
    rw [hkeys, List.map_map]
    exact hlines
  · exact fun e he a b => opens_match (hok.values e he)
  · intro e he m hm ctx key s err herr
    rcases expandReference_error herr with hmissing | ⟨-, hform⟩
    · exact hmissing
    · exact absurd (hok.checkReference he hm) hform
  · intro svc layers app opts err herr
    rcases bind_eq_error.mp herr with hfetch | ⟨fetched, -, hrun⟩
    · exact .inl (fetchSecrets_error hfetch)
    obtain ⟨e, he, hliteral, m, hm, hcause⟩ := foldlM_resolveEntry_error (map_eq_error.mp hrun)
    refine .inr ⟨fetched, e, he, m, hm, ?_⟩
    rcases hcause with hmissing | ⟨hunknown, hform⟩
    · exact .inl hmissing
    obtain ⟨other, hother, hmem⟩ := text_of_mem_merged he hliteral
    have hbad : ∀ t, validateEnvironmentText t = none → e ∉ parseEnvLines t := fun t ht ht' =>
      hform ((accepted_of_validate ht).checkReference ht' hm)
    exact .inr ⟨hunknown, hbad text h, other, hother, hmem, fun ht => hbad other ht hmem⟩

theorem reliable_url :
    validateEnvironmentText (js "URL=a$\x7b\x7bvars.HOST\x7d\x7d") = none ∧
      Reliable (js "URL=a$\x7b\x7bvars.HOST\x7d\x7d") := by
  have h : validateEnvironmentText (js "URL=a$\x7b\x7bvars.HOST\x7d\x7d") = none := by decide
  exact ⟨h, reliable_of_accepted h⟩

end Aoox
