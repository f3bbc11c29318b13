import Aoox.EnvText
import Aoox.Splicing

/-! # `REFERENCE` as a pattern

`matchReference` takes greedily what the regular expression may give back.  The
two agree because each part of the pattern stops at a code unit the part before
it cannot take, which is what `matchReference_iff` says: a match is exactly a
text of the written-out form, whatever follows.  So `REFERENCE` is a `Pattern`,
and a reference holds no `=`, which keeps the name and the value of an entry
apart.
-/
namespace Aoox
open JsString List Option

/-! ## The form of a reference -/

/-- An optional group with its separator. -/
def groupText (sep : CodeUnit) : Option JsString → JsString
  | some group => sep :: group
  | none => []

def isDatabaseNameUnit (c : CodeUnit) : Bool := isNameUnit c || c == cu '$'

/-- The parts of a match are what the pattern allows, `left` and `right` the
white space inside the braces. -/
structure Reference.Formed (m : Reference) (left right : JsString) : Prop where
  space_left : ∀ c ∈ left, isSpace c = true
  space_right : ∀ c ∈ right, isSpace c = true
  scope_ne : m.scope ≠ []
  scope : ∀ c ∈ m.scope, isLower c = true
  name_ne : m.name ≠ []
  name : ∀ c ∈ m.name, isNameUnit c = true
  field : ∀ f ∈ m.field, f ≠ [] ∧ ∀ c ∈ f, isLower c = true
  database : ∀ d ∈ m.database, d ≠ [] ∧ ∀ c ∈ d, isDatabaseNameUnit c = true
  whole : m.whole = openBraces ++ (left ++ (m.scope ++ (cu '.' :: (m.name ++
    (groupText (cu '.') m.field ++ (groupText (cu ':') m.database ++ (right ++ js "\x7d\x7d")))))))

/-- `text` is empty or begins with a code unit outside the class. -/
def Stops (p : CodeUnit → Bool) (text : JsString) : Prop := ∀ c ∈ text.head?, p c = false

variable {p : CodeUnit → Bool} {group rest : JsString}

theorem takeWhile_append_stops (hg : ∀ c ∈ group, p c = true) (hr : Stops p rest) :
    (group ++ rest).takeWhile p = group ∧ (group ++ rest).dropWhile p = rest := by
  have hrest : rest.takeWhile p = [] ∧ rest.dropWhile p = rest := by
    cases rest with
    | nil => exact ⟨rfl, rfl⟩
    | cons c cs =>
      have hc : p c = false := hr c rfl
      simp [hc]
  constructor
  · rw [takeWhile_append_of_pos hg, hrest.1, append_nil]
  · rw [dropWhile_append_of_pos hg, hrest.2]

theorem takeSome_append (hne : group ≠ []) (hg : ∀ c ∈ group, p c = true) (hr : Stops p rest) :
    takeSome p (group ++ rest) = some (group, rest) := by
  obtain ⟨htake, hdrop⟩ := takeWhile_append_stops hg hr
  rw [takeSome, htake, hdrop, if_neg hne]

variable {text : JsString}

theorem takeSome_some (h : takeSome p text = some (group, rest)) :
    text = group ++ rest ∧ group ≠ [] ∧ ∀ c ∈ group, p c = true := by
  rw [takeSome] at h
  split at h
  · cases h
  · rename_i hne
    simp only [some.injEq, Prod.mk.injEq] at h
    obtain ⟨rfl, rfl⟩ := h
    exact ⟨takeWhile_append_dropWhile.symm, hne, fun c => mem_takeWhile_imp⟩

theorem afterLiteral_append (literal text : JsString) :
    afterLiteral literal (literal ++ text) = some text := by
  simp [afterLiteral]

theorem afterLiteral_some {literal : JsString}
    (h : afterLiteral literal text = some rest) : text = literal ++ rest := by
  rw [afterLiteral] at h
  split at h
  · obtain ⟨u, rfl⟩ := ‹literal <+: text›
    simp only [drop_left, some.injEq] at h
    rw [h]
  · cases h

variable {sep : CodeUnit}

theorem afterLiteral_stops (h : Stops (· == sep) text) : afterLiteral [sep] text = none := by
  cases text with
  | nil => rfl
  | cons c cs =>
    have hc : c ≠ sep := by simpa using h c rfl
    simp [afterLiteral, cons_prefix_cons, Ne.symm hc]

theorem takeGroup_append {group : Option JsString} (hg : ∀ g ∈ group, g ≠ [] ∧ ∀ c ∈ g, p c = true)
    (hp : Stops p rest)
    (hsep : Stops (· == sep) rest) : takeGroup sep p (groupText sep group ++ rest) = (group, rest) := by
  cases group with
  | none => simp [takeGroup, groupText, afterLiteral_stops hsep]
  | some g =>
    obtain ⟨hne, hall⟩ := hg g rfl
    have hlit : afterLiteral [sep] (sep :: (g ++ rest)) = some (g ++ rest) :=
      afterLiteral_append [sep] (g ++ rest)
    simp [takeGroup, groupText, hlit, takeSome_append hne hall hp]

theorem takeGroup_spec {group : Option JsString} (h : takeGroup sep p text = (group, rest)) :
    text = groupText sep group ++ rest ∧ ∀ g ∈ group, g ≠ [] ∧ ∀ c ∈ g, p c = true := by
  rw [takeGroup] at h
  split at h
  · rename_i g r hsome
    obtain ⟨u, hu, hg⟩ := bind_eq_some_iff.mp hsome
    obtain ⟨rfl, hne, hall⟩ := takeSome_some hg
    simp only [Prod.mk.injEq] at h
    obtain ⟨rfl, rfl⟩ := h
    refine ⟨by simpa [groupText] using afterLiteral_some hu, ?_⟩
    intro g' hg'
    obtain rfl := mem_some_iff.mp hg'
    exact ⟨hne, hall⟩
  · simp only [Prod.mk.injEq] at h
    obtain ⟨rfl, rfl⟩ := h
    exact ⟨rfl, fun g hg => by cases hg⟩

/-! ## Where each part stops -/

def Printable (p : CodeUnit → Bool) : Prop := ∀ c, p c = true → 33 ≤ c.toNat ∧ c.toNat ≤ 126

theorem not_space_of_printable (hp : Printable p) {c : CodeUnit}
    (hc : p c = true) : isSpace c = false := by
  have := hp c hc
  simp only [isSpace, Bool.or_eq_false_iff, Bool.and_eq_false_iff, decide_eq_false_iff_not,
    beq_eq_false_iff_ne, ne_eq, UInt16.le_iff_toNat_le, ← UInt16.toNat_inj, UInt16.reduceToNat]
  omega

theorem printable_isLower : Printable isLower := by
  intro c hc
  simp [isLower, cu, UInt16.le_iff_toNat_le] at hc
  omega

theorem printable_isNameUnit : Printable isNameUnit := by
  intro c hc
  simp [isNameUnit, isLetter, isDigit, cu, UInt16.le_iff_toNat_le, ← UInt16.toNat_inj] at hc
  omega

theorem printable_isDatabaseNameUnit : Printable isDatabaseNameUnit := by
  intro c hc
  rcases Bool.or_eq_true_iff.mp hc with hc | hc
  · exact printable_isNameUnit c hc
  · rw [eq_of_beq hc]
    decide

theorem printable_beq {d : CodeUnit} (hd : 33 ≤ d.toNat ∧ d.toNat ≤ 126) : Printable (· == d) := by
  intro c hc
  rw [eq_of_beq hc]
  exact hd

theorem stops_class {q : CodeUnit → Bool} (hne : group ≠ []) (hg : ∀ c ∈ group, q c = true)
    (hdisj : ∀ c, q c = true → p c = false) : Stops p (group ++ rest) := by
  obtain ⟨d, ds, rfl⟩ := exists_cons_of_ne_nil hne
  intro c hc
  obtain rfl : d = c := by simpa using hc
  exact hdisj d (hg d mem_cons_self)

theorem stops_cons {c : CodeUnit} (hc : p c = false) (rest : JsString) : Stops p (c :: rest) := by
  intro d hd
  obtain rfl : c = d := by simpa using hd
  exact hc

theorem stops_group (group : Option JsString) (hsep : p sep = false) (hr : Stops p rest) :
    Stops p (groupText sep group ++ rest) := by
  cases group with
  | none => exact hr
  | some g => exact stops_cons hsep _

variable {right : JsString}

/-- What closes a reference stops every printable class without `}`. -/
theorem stops_close (hp : Printable p) (hbrace : p (cu '\x7d') = false)
    (hright : ∀ c ∈ right, isSpace c = true) (rest : JsString) :
    Stops p (right ++ (js "\x7d\x7d" ++ rest)) := by
  by_cases hnil : right = []
  · subst hnil
    exact stops_cons hbrace _
  · refine stops_class hnil hright ?_
    intro c hc
    by_contra hpc
    rw [not_space_of_printable hp (by simpa using hpc)] at hc
    cases hc

variable {left : JsString}

theorem trimStart_append (hleft : ∀ c ∈ left, isSpace c = true)
    (hr : Stops isSpace rest) : trimStart (left ++ rest) = rest :=
  (takeWhile_append_stops hleft hr).2

theorem trimStart_spec (text : JsString) :
    ∃ left, text = left ++ trimStart text ∧ ∀ c ∈ left, isSpace c = true :=
  ⟨text.takeWhile isSpace, takeWhile_append_dropWhile.symm, fun _ => mem_takeWhile_imp⟩

/-! ## What is matched -/

variable {m : Reference}

theorem matchReference_of_formed (h : m.Formed left right)
    (rest : JsString) : matchReference (m.whole ++ rest) = some m := by
  -- the text behind each part, from the right
  obtain ⟨close, hclose⟩ : ∃ close, close = right ++ (js "\x7d\x7d" ++ rest) := ⟨_, rfl⟩
  obtain ⟨behindField, hbf⟩ : ∃ t, t = groupText (cu ':') m.database ++ close := ⟨_, rfl⟩
  obtain ⟨behindName, hbn⟩ : ∃ t, t = groupText (cu '.') m.field ++ behindField := ⟨_, rfl⟩
  obtain ⟨behindScope, hbs⟩ : ∃ t, t = cu '.' :: (m.name ++ behindName) := ⟨_, rfl⟩
  have htext : m.whole ++ rest = openBraces ++ (left ++ (m.scope ++ behindScope)) := by
    rw [h.whole, hbs, hbn, hbf, hclose]
    simp only [append_assoc, cons_append]
  have hstop : ∀ {p}, Printable p → p (cu '\x7d') = false → Stops p close :=
    fun hp hbrace => hclose ▸ stops_close hp hbrace h.space_right rest
  have hscope : trimStart (left ++ (m.scope ++ behindScope)) = m.scope ++ behindScope :=
    trimStart_append h.space_left
      (stops_class h.scope_ne h.scope fun _ => not_space_of_printable printable_isLower)
  have hscope' : takeSome isLower (m.scope ++ behindScope) = some (m.scope, behindScope) :=
    takeSome_append h.scope_ne h.scope (hbs ▸ stops_cons (by decide) _)
  have hdot : afterLiteral [cu '.'] behindScope = some (m.name ++ behindName) :=
    hbs ▸ afterLiteral_append [cu '.'] _
  have hname : takeSome isNameUnit (m.name ++ behindName) = some (m.name, behindName) := by
    refine takeSome_append h.name_ne h.name ?_
    rw [hbn, hbf]
    exact stops_group _ (by decide)
      (stops_group _ (by decide) (hstop printable_isNameUnit (by decide)))
  have hfield : takeGroup (cu '.') isLower behindName = (m.field, behindField) := by
    rw [hbn]
    refine takeGroup_append h.field ?_ ?_
    · exact hbf ▸ stops_group _ (by decide) (hstop printable_isLower (by decide))
    · exact hbf ▸ stops_group _ (by decide)
        (hstop (printable_beq (d := cu '.') (by decide)) (by decide))
  have hdatabase : takeGroup (cu ':') (fun c => isNameUnit c || c == cu '$') behindField =
      (m.database, close) := by
    rw [hbf]
    exact takeGroup_append h.database (hstop printable_isDatabaseNameUnit (by decide))
      (hstop (printable_beq (d := cu ':') (by decide)) (by decide))
  have hbraces : afterLiteral (js "\x7d\x7d") (trimStart close) = some rest := by
    have hstops : Stops isSpace (js "\x7d\x7d" ++ rest) := stops_cons (by decide) _
    rw [hclose, trimStart_append h.space_right hstops, afterLiteral_append]
  have hlen : (m.whole ++ rest).take ((m.whole ++ rest).length - rest.length) = m.whole := by simp
  rw [htext] at hlen ⊢
  simp only [matchReference, afterLiteral_append, bind_eq_bind, bind_some, hscope,
    hscope', hdot, hname, hfield, hdatabase, hbraces, hlen]
  rfl

theorem formed_of_matchReference (h : matchReference text = some m) :
    ∃ left right rest, m.Formed left right ∧ text = m.whole ++ rest := by
  simp only [matchReference, bind_eq_bind, bind_eq_some_iff, Prod.exists] at h
  obtain ⟨inner, hopen, scope, behindScope, hscope, afterDot, hdot, name, behindName, hname, rest,
    hclose, hm⟩ := h
  obtain ⟨left, hleft, hspace⟩ := trimStart_spec inner
  obtain ⟨hscope, hscope_ne, hscope_all⟩ := takeSome_some hscope
  obtain ⟨hname, hname_ne, hname_all⟩ := takeSome_some hname
  rcases hgf : takeGroup (cu '.') isLower behindName with ⟨field, behindField⟩
  rcases hgd : takeGroup (cu ':') (fun c => isNameUnit c || c == cu '$') behindField with
    ⟨database, close⟩
  rw [hgf] at hclose hm
  simp only [hgd] at hclose hm
  obtain ⟨hfield, hfield_all⟩ := takeGroup_spec hgf
  obtain ⟨hdatabase, hdatabase_all⟩ := takeGroup_spec hgd
  obtain ⟨right, hright, hspace'⟩ := trimStart_spec close
  have htext : text = (openBraces ++ (left ++ (scope ++ (cu '.' :: (name ++
      (groupText (cu '.') field ++ (groupText (cu ':') database ++
        (right ++ js "\x7d\x7d")))))))) ++ rest := by
    rw [afterLiteral_some hopen, hleft, hscope, afterLiteral_some hdot, hname, hfield, hdatabase,
      hright, afterLiteral_some hclose]
    simp only [append_assoc, cons_append, nil_append]
  have hwhole : text.take (text.length - rest.length) = openBraces ++ (left ++ (scope ++
      (cu '.' :: (name ++ (groupText (cu '.') field ++ (groupText (cu ':') database ++
        (right ++ js "\x7d\x7d"))))))) := by
    conv_lhs => rw [htext, length_append, Nat.add_sub_cancel, take_left]
  rw [hwhole] at hm
  obtain rfl := some.inj hm
  exact ⟨left, right, rest, ⟨hspace, hspace', hscope_ne, hscope_all, hname_ne, hname_all,
    hfield_all, hdatabase_all, rfl⟩, htext⟩

/-! ## The pattern -/

theorem Reference.Formed.whole_ne (h : m.Formed left right) : 0 < m.whole.length := by
  rw [h.whole, length_append]
  exact Nat.add_pos_left (by decide) _

/-- `REFERENCE`. -/
def reference : Splicing.Pattern CodeUnit Reference where
  find := matchReference
  size m := m.whole.length
  size_pos h := by
    obtain ⟨left, right, rest, hm, -⟩ := formed_of_matchReference h
    exact hm.whole_ne
  size_le h := by
    obtain ⟨left, right, rest, -, rfl⟩ := formed_of_matchReference h
    simp
  ends u h := by
    obtain ⟨left, right, rest, hm, rfl⟩ := formed_of_matchReference h
    rw [List.take_left]
    exact matchReference_of_formed hm u

theorem references_eq_cut (value : JsString) :
    references value = (Splicing.cut reference value).1.map Prod.snd := by
  have go : ∀ k text, referencesGo k text = (Splicing.cutGo reference k text).1.map Prod.snd := by
    intro k text
    induction text generalizing k with
    | nil => cases k <;> rfl
    | cons c cs ih =>
      cases k with
      | succ k => exact ih k
      | zero =>
        cases hm : matchReference (c :: cs) with
        | some m =>
          have hfind : reference.find (c :: cs) = some m := hm
          simp only [referencesGo, Splicing.cutGo, hm, hfind, map_cons, ih]
          rfl
        | none =>
          have hfind : reference.find (c :: cs) = none := hm
          simp only [referencesGo, Splicing.cutGo, hm, hfind, ih]
          rcases Splicing.cutGo reference 0 cs with ⟨_ | ⟨g, ms⟩, rest⟩ <;> rfl
  exact go 0 value

/-- `REFERENCE.test(value)` fails exactly where no reference starts. -/
theorem references_eq_nil_iff {value : JsString} :
    references value = [] ↔ ¬ Splicing.Occurs reference value := by
  rw [references_eq_cut, map_eq_nil_iff, Splicing.cut_fst_eq_nil_iff]

/-- Every match of a scan is of the written-out form. -/
theorem formed_of_mem_references {value : JsString} (h : m ∈ references value) :
    ∃ left right, m.Formed left right := by
  rw [references_eq_cut] at h
  obtain ⟨g, hg, rfl⟩ := mem_map.mp h
  obtain ⟨text, htext⟩ := Splicing.find_of_mem_cut g hg
  obtain ⟨left, right, -, hm, -⟩ := formed_of_matchReference htext
  exact ⟨left, right, hm⟩

theorem equals_notMem_group (hsep : sep ≠ cu '=') (hp : p (cu '=') = false)
    {group : Option JsString}
    (hg : ∀ g ∈ group, g ≠ [] ∧ ∀ c ∈ g, p c = true) : cu '=' ∉ groupText sep group := by
  cases group with
  | none => simp [groupText]
  | some g =>
    intro hmem
    rcases mem_cons.mp hmem with h | h
    · exact hsep h.symm
    · rw [(hg g rfl).2 _ h] at hp
      cases hp

theorem Reference.Formed.equals_notMem (h : m.Formed left right) : cu '=' ∉ m.whole := by
  have class_notMem : ∀ {p : CodeUnit → Bool} {text : JsString}, p (cu '=') = false →
      (∀ c ∈ text, p c = true) → cu '=' ∉ text := by
    intro p text hp hall hmem
    rw [hall _ hmem] at hp
    cases hp
  rw [h.whole]
  simp only [mem_append, mem_cons, not_or]
  exact ⟨by decide, class_notMem (by decide) h.space_left, class_notMem (by decide) h.scope,
    by decide, class_notMem (by decide) h.name, equals_notMem_group (by decide) (by decide) h.field,
    equals_notMem_group (by decide) (by decide) h.database, class_notMem (by decide) h.space_right,
    by decide⟩

/-- An entry holds a reference exactly when its name or its value does. -/
theorem references_lineOf_eq_nil_iff {key value : JsString} :
    references (lineOf key value) = [] ↔ references key = [] ∧ references value = [] := by
  have hsep : ∀ t m, reference.find t = some m → cu '=' ∉ t.take (reference.size m) := by
    intro t m hm
    obtain ⟨left, right, rest, hformed, rfl⟩ := formed_of_matchReference hm
    change cu '=' ∉ (m.whole ++ rest).take m.whole.length
    rw [take_left]
    exact hformed.equals_notMem
  rw [references_eq_nil_iff, references_eq_nil_iff, references_eq_nil_iff, lineOf,
    Splicing.occurs_append_cons_iff hsep, not_or]

end Aoox
