import Aoox.EnvUpsertRuns

/-! # The domain of the panel

Saving the domain writes a row and then six variables of the installation's env file, the e-mail of
the certificates among them.  The e-mail that is written is the one of the row.  A request without an
e-mail keeps the one of the row, but an e-mail that is in the file only is replaced by nothing.

On a file whose last line is ended, a line of the script edits the lines of the file
(`after_unlines`), and what a variable has is what its last line says.
-/
namespace Aoox.PanelDomain
open JsString EnvUpsert Shell List Option Bool

/-! ## Requests -/

structure Settings where
  (webHost apiHost acmeEmail : Option JsString)
  restrictPorts : Bool

def isHostUnit (c : CodeUnit) : Bool := isLetter c || isDigit c || c = cu '-' || c = cu '.'

/-- A host as the request's pattern accepts it. -/
structure Host where
  text : JsString
  valid : text.all isHostUnit = true

/-- A request; `none` is what it does not mention. -/
structure UpdatePanelDomain where
  (webHost apiHost : Host)
  acmeEmail : Option JsString
  restrictPorts : Option Bool

def Host.normalized (h : Host) : JsString := toLowerCase (trim h.text)

def blankToNull (email : JsString) : Option JsString := if trim email = [] then none else some (trim email)

def assertRestrictPortsAllowed (webHost apiHost : JsString) (restrictPorts : Bool) :
    Except JsString Unit :=
  if restrictPorts && (webHost = [] || apiHost = []) then
    .error (js "restrictPorts needs both a web domain and an API domain: the CLI, webhooks and " ++
      js "sockets reach the API through its domain once port 3001 is closed")
  else .ok ()

/-- What `update` saves. -/
def update (row : Settings) (dto : UpdatePanelDomain) (installDir : Option JsString) :
    Except JsString Settings := do
  let webHost := dto.webHost.normalized
  let apiHost := dto.apiHost.normalized
  if webHost = apiHost then throw (js "webHost and apiHost must be different")
  let restrictPorts := dto.restrictPorts.getD row.restrictPorts
  assertRestrictPortsAllowed webHost apiHost restrictPorts
  if ((installDir.map trim).getD []) = [] then
    throw (js "INSTALL_DIR is not set — add INSTALL_DIR=<absolute path of the folder holding " ++
      js "docker-compose.dist.yml on this host> to .env.dist and restart, then try again")
  return { webHost := some webHost, apiHost := some apiHost, restrictPorts
           acmeEmail := match dto.acmeEmail with
            | some email => blankToNull email
            | none => row.acmeEmail }

/-- The variables `apply` sets, in the order of its script. -/
def variablesOf (s : Settings) : List (JsString × JsString) :=
  [(js "WEB_DOMAIN", s.webHost.getD []), (js "API_DOMAIN", s.apiHost.getD []),
    (js "PROXY_ACME_EMAIL", s.acmeEmail.getD []),
    (js "WEB_ORIGIN", js "https://" ++ s.webHost.getD []),
    (js "PUBLIC_API_URL", js "https://" ++ s.apiHost.getD []), (js "COOKIE_SECURE", js "true")]

/-- The variables the script sets. -/
def KEYS : List JsString :=
  [js "WEB_DOMAIN", js "API_DOMAIN", js "PROXY_ACME_EMAIL", js "WEB_ORIGIN", js "PUBLIC_API_URL",
    js "COOKIE_SECURE"]

/-- The env file when the lines of the script have run. -/
def applied (e : Setting) (s : Settings) (content : JsString) : JsString :=
  (variablesOf s).foldl (fun content v => (after e v.1 v.2 content).world) content

/-- The value in effect: that of the last line, or none. -/
def valueIn (key : JsString) (ls : List JsString) : JsString :=
  ((ls.filter fun l => key ++ js "=" <+: l).getLast?.map (·.drop (key ++ js "=").length)).getD []

def valueOf (key content : JsString) : JsString := valueIn key (Sed.lines content)

/-! ## Lines -/

/-- The lines of the file when a variable is set. -/
def upsertLines (key value : JsString) (ls : List JsString) : List JsString :=
  if ls.any fun l => key ++ js "=" <+: l then
    ls.map fun l => if key ++ js "=" <+: l then key ++ js "=" ++ value else l
  else ls ++ [key ++ js "=" ++ value]

/-- A unit that means nothing to the shell, and to `sed` only if it is the delimiter. -/
def isPlainUnit (c : CodeUnit) : Bool := isHostUnit c || (js "@_+:/").contains c

def Plain (value : JsString) : Prop := ∀ c ∈ value, isPlainUnit c = true

variable {value : JsString} {c : CodeUnit}

theorem Plain.not_mem (h : Plain value) (hc : isPlainUnit c = false) : c ∉ value := fun hmem => by
  rw [h c hmem] at hc
  cases hc

theorem Plain.quoted (h : Plain value) : ∀ c ∈ value, c ≠ cu '"' ∧ c ≠ cu '`' := fun c hc =>
  ⟨fun heq => h.not_mem (by decide) (heq ▸ hc), fun heq => h.not_mem (by decide) (heq ▸ hc)⟩

theorem Plain.dollarsNamed (h : Plain value) :
    EnvUpsert.dollarsNamed value = true ∧ hasName value = false := by
  induction value with
  | nil => exact ⟨rfl, rfl⟩
  | cons c value ih =>
    obtain ⟨hdollars, hname⟩ := ih fun x hx => h x (mem_cons_of_mem _ hx)
    have hc : c ≠ cu '$' := by
      rintro rfl
      exact absurd (h _ mem_cons_self) (by decide)
    exact ⟨by simp [EnvUpsert.dollarsNamed, hdollars, hc], by simp [hasName, hname, hc]⟩

variable {ls : List JsString}

theorem lines_unlines (hls : ∀ l ∈ ls, cu '\n' ∉ l) : Sed.lines (Sed.unlines ls) = ls := by
  have hlines := Sed.lines_unlines hls (not_mem_nil (a := (sign '\n' : CodeUnit)))
  rwa [append_nil, if_pos rfl, append_nil] at hlines

variable {key content : JsString}

/-- The line of a key is left to `sed` if there is one. -/
theorem world_present (hkey : IsName key) (hvalue : Plain value) (hkeys : keyLines key content ≠ [])
    (e : Setting) :
    (after e key value content).world = Sed.editLines
      (fun l => if key ++ js "=" <+: l then key ++ js "=" ++ value else l) content := by
  obtain ⟨hdollars, hname⟩ := hvalue.dollarsNamed
  obtain ⟨ps, hreads, hgrows⟩ := grows_script hkey hvalue.quoted hdollars
  have hps : ∀ p ∈ (sedHead key).map (fun c => Piece.char c true) ++ ps,
      (∃ c, p = .char c true) ∨ ∃ n, p = .var n true := by
    intro p hp
    rcases List.mem_append.mp hp with hp | hp
    · obtain ⟨c, -, rfl⟩ := List.mem_map.mp hp
      exact .inl ⟨c, rfl⟩
    · exact hreads.quoted p hp
  have hline : ∀ c ∈ value, c ≠ cu '\n' := fun c hc heq => hvalue.not_mem (by decide) (heq ▸ hc)
  rw [(after_present e content hkey (hvalue.not_mem (by decide)) hps hgrows hkeys).1, text_script,
    hreads.text hname, text_front, edit_script hkey,
    parseParts_value _ hline (hvalue.not_mem (by decide)), Option.map_some, Option.getD_some]
  simp only [Sed.fill_chars]

/-- **What a line of the script does to a file of lines.** -/
theorem after_unlines (hkey : IsName key) (hvalue : Plain value) (hls : ∀ l ∈ ls, cu '\n' ∉ l)
    (e : Setting) :
    (after e key value (Sed.unlines ls)).world = Sed.unlines (upsertLines key value ls) := by
  have hany : keyLines key (Sed.unlines ls) ≠ [] ↔ ls.any (fun l => key ++ js "=" <+: l) = true := by
    rw [keyLines, lines_unlines hls, ne_eq, List.filter_eq_nil_iff, List.any_eq_true]
    simp
  by_cases hkeys : keyLines key (Sed.unlines ls) = []
  · obtain ⟨hdollars, -⟩ := hvalue.dollarsNamed
    obtain ⟨ps, -, hgrows⟩ := grows_script hkey hvalue.quoted hdollars
    rw [(after_absent e _ hkey (hvalue.not_mem (by decide)) hgrows hkeys).1, upsertLines,
      if_neg fun h => hany.mpr h hkeys, Sed.unlines_append]
    simp [Sed.unlines]
    rfl
  · have hedited := world_present hkey hvalue hkeys e
    have hsplit := Sed.splitEnds_unlines hls (not_mem_nil (a := (sign '\n' : CodeUnit)))
    rw [append_nil] at hsplit
    rw [hedited, Sed.editLines, hsplit, if_pos rfl, append_nil, upsertLines,
      if_pos (hany.mp hkeys)]

/-! ## Values -/

/-- The lines that set a variable. -/
def about (key : JsString) (ls : List JsString) : List JsString :=
  ls.filter fun l => key ++ js "=" <+: l

/-- The variable is set, and every line that sets it gives it the value. -/
def SetTo (key value : JsString) (ls : List JsString) : Prop :=
  about key ls ≠ [] ∧ ∀ l ∈ about key ls, l = key ++ js "=" ++ value

theorem SetTo.valueIn_eq (h : SetTo key value ls) : valueIn key ls = value := by
  rw [valueIn, ← about, getLast?_eq_some_getLast h.1, map_some, getD_some,
    h.2 _ (getLast_mem h.1), drop_left]

theorem setTo_upsertLines (key value : JsString) (ls : List JsString) :
    SetTo key value (upsertLines key value ls) := by
  have hline : key ++ js "=" <+: key ++ js "=" ++ value := prefix_append _ _
  rw [upsertLines]
  split
  · next hany =>
    obtain ⟨l, hl, hstarts⟩ := any_eq_true.mp hany
    refine ⟨ne_nil_of_mem (mem_filter.mpr ⟨mem_map_of_mem hl, ?_⟩), fun x hx => ?_⟩
    · rwa [if_pos (of_decide_eq_true hstarts), decide_eq_true_eq]
    · obtain ⟨hmem, hstarts⟩ := mem_filter.mp hx
      obtain ⟨m, -, rfl⟩ := mem_map.mp hmem
      split at hstarts
      · next h => rw [if_pos h]
      · next h => exact absurd (of_decide_eq_true hstarts) h
  · next hnone =>
    refine ⟨ne_nil_of_mem (mem_filter.mpr ⟨mem_append_right _ (mem_singleton_self _),
      decide_eq_true hline⟩), fun x hx => ?_⟩
    obtain ⟨hmem, hstarts⟩ := mem_filter.mp hx
    rcases mem_append.mp hmem with hmem | hmem
    · exact absurd (any_eq_true.mpr ⟨x, hmem, hstarts⟩) hnone
    · exact mem_singleton.mp hmem

theorem upsertLines_eq_self (h : SetTo key value ls) : upsertLines key value ls = ls := by
  obtain ⟨l, hl⟩ := exists_mem_of_ne_nil _ h.1
  obtain ⟨hmem, hstarts⟩ := mem_filter.mp hl
  rw [upsertLines, if_pos (any_eq_true.mpr ⟨l, hmem, hstarts⟩)]
  refine (map_congr_left fun x hx => ?_).trans (List.map_id ls)
  split
  · next hx' => exact (h.2 x (mem_filter.mpr ⟨hx, decide_eq_true hx'⟩)).symm
  · rfl

variable {other : JsString}

theorem not_starts (hkey : IsName key) (hother : IsName other) (hne : other ≠ key) {l : JsString}
    (h : key ++ js "=" <+: l) : ¬ other ++ js "=" <+: l := by
  have hequals : ∀ {name : JsString}, IsName name → cu '=' ∉ name := fun hname hmem =>
    absurd (hname _ hmem) (by decide)
  rintro ⟨t, ht⟩
  obtain ⟨t', rfl⟩ := h
  rw [append_assoc, append_assoc] at ht
  exact hne (append_cons_inj (hequals hother) (hequals hkey) ht).1

/-- **A line of the script leaves the other variables.** -/
theorem about_upsertLines_of_ne (hkey : IsName key) (hother : IsName other) (hne : other ≠ key)
    (value : JsString) (ls : List JsString) :
    about other (upsertLines key value ls) = about other ls := by
  have hline : ¬ other ++ js "=" <+: key ++ js "=" ++ value :=
    not_starts hkey hother hne (prefix_append _ _)
  have hmap : about other (ls.map fun l =>
      if key ++ js "=" <+: l then key ++ js "=" ++ value else l) = about other ls := by
    unfold about
    induction ls with
    | nil => rfl
    | cons l ls ih =>
      by_cases hl : key ++ js "=" <+: l
      · simp only [map_cons, if_pos hl, filter_cons, decide_eq_false hline,
          decide_eq_false (not_starts hkey hother hne hl), false_eq_true, if_false, ih]
      · simp only [map_cons, if_neg hl, filter_cons, ih]
  rw [upsertLines]
  split
  · exact hmap
  · rw [about, filter_append, filter_singleton, decide_eq_false hline]
    exact append_nil _

/-! ## The script -/

/-- The lines of the file behind the lines of the script. -/
def scripted (vs : List (JsString × JsString)) (ls : List JsString) : List JsString :=
  vs.foldl (fun ls v => upsertLines v.1 v.2 ls) ls

theorem not_mem_upsertLines (hkey : IsName key) (hvalue : Plain value)
    (hls : ∀ l ∈ ls, cu '\n' ∉ l) :
    ∀ l ∈ upsertLines key value ls, cu '\n' ∉ l := by
  have hline := not_mem_line hkey (hvalue.not_mem (by decide : isPlainUnit (cu '\n') = false))
  intro l hl
  rw [upsertLines] at hl
  split at hl
  · obtain ⟨m, hm, rfl⟩ := mem_map.mp hl
    split
    · exact hline
    · exact hls m hm
  · rcases mem_append.mp hl with hl | hl
    · exact hls l hl
    · rwa [mem_singleton.mp hl]

variable {vs : List (JsString × JsString)}

/-- **The script edits a file of lines**, one variable after the other. -/
theorem applied_unlines (e : Setting) (hvs : ∀ v ∈ vs, IsName v.1 ∧ Plain v.2)
    (hls : ∀ l ∈ ls, cu '\n' ∉ l) :
    vs.foldl (fun content v => (after e v.1 v.2 content).world) (Sed.unlines ls) =
        Sed.unlines (scripted vs ls) ∧ ∀ l ∈ scripted vs ls, cu '\n' ∉ l := by
  induction vs generalizing ls with
  | nil => exact ⟨rfl, hls⟩
  | cons v vs ih =>
    obtain ⟨⟨hkey, hvalue⟩, hrest⟩ := forall_mem_cons.mp hvs
    rw [foldl_cons, after_unlines hkey hvalue hls, scripted, foldl_cons]
    exact ih hrest (not_mem_upsertLines hkey hvalue hls)

theorem about_scripted (hvs : ∀ v ∈ vs, IsName v.1) (hkey : IsName key) (hne : ∀ v ∈ vs, key ≠ v.1)
    (ls : List JsString) : about key (scripted vs ls) = about key ls := by
  induction vs generalizing ls with
  | nil => rfl
  | cons v vs ih =>
    obtain ⟨hv, hrest⟩ := forall_mem_cons.mp hvs
    obtain ⟨hnev, hner⟩ := forall_mem_cons.mp hne
    rw [scripted, foldl_cons]
    exact (ih hrest hner _).trans (about_upsertLines_of_ne hv hkey hnev v.2 ls)

theorem scripted_eq_self (h : ∀ v ∈ vs, SetTo v.1 v.2 ls) : scripted vs ls = ls := by
  induction vs with
  | nil => rfl
  | cons v vs ih =>
    obtain ⟨hv, hrest⟩ := forall_mem_cons.mp h
    rw [scripted, foldl_cons, upsertLines_eq_self hv]
    exact ih hrest

theorem isName_variables (s : Settings) : ∀ v ∈ variablesOf s, IsName v.1 := by
  have hkeys : KEYS.all (fun key => key.all fun c => decide (c ∈ (letters : List CodeUnit))) =
      true := by decide
  intro v hv c hc
  have hmem : v.1 ∈ KEYS := mem_map_of_mem (f := Prod.fst) hv
  exact of_decide_eq_true (all_eq_true.mp (all_eq_true.mp hkeys v.1 hmem) c hc)

/-- **What the script sets is set**: no later line of it is about the same variable. -/
theorem setTo_variables (s : Settings) (ls : List JsString) :
    ∀ v ∈ variablesOf s, SetTo v.1 v.2 (scripted (variablesOf s) ls) := by
  intro v hv
  obtain ⟨before, behind, hsplit⟩ := append_of_mem hv
  have hkeys : ((variablesOf s).map Prod.fst).Nodup := (by decide : KEYS.Nodup)
  rw [hsplit, map_append, map_cons] at hkeys
  have hnot := (nodup_cons.mp (List.nodup_append.mp hkeys).2.1).1
  have hnames := isName_variables s
  have hbehind : ∀ w ∈ behind, IsName w.1 := fun w hw => hnames w <| by
    rw [hsplit]
    exact mem_append_right _ (mem_cons_of_mem _ hw)
  rw [hsplit, scripted, foldl_append, foldl_cons, SetTo]
  rw [← scripted, about_scripted hbehind (hnames v hv)
    fun w hw heq => hnot (heq ▸ mem_map_of_mem hw)]
  exact setTo_upsertLines _ _ _

/-! ## What is saved -/

theorem isHostUnit_lower (h : isHostUnit c = true) :
    isHostUnit (if cu 'A' ≤ c && c ≤ cu 'Z' then c + 32 else c) = true := by
  split
  · next hupper =>
    rw [and_eq_true, decide_eq_true_eq, decide_eq_true_eq, UInt16.le_iff_toNat_le,
      UInt16.le_iff_toNat_le] at hupper
    have hA : (cu 'A').toNat = 65 := by decide
    have hZ : (cu 'Z').toNat = 90 := by decide
    have ha : (cu 'a').toNat = 97 := by decide
    have hz : (cu 'z').toNat = 122 := by decide
    have hsum : (c + 32).toNat = c.toNat + 32 := by
      rw [UInt16.toNat_add]
      exact Nat.mod_eq_of_lt (by rw [show (32 : UInt16).toNat = 32 from rfl]; omega)
    have hlower : isLetter (c + 32) = true := by
      simp only [isLetter, or_eq_true, and_eq_true, decide_eq_true_eq, UInt16.le_iff_toNat_le]
      omega
    rw [isHostUnit, hlower]
    rfl
  · exact h

theorem Host.plain (h : Host) : Plain h.normalized := by
  intro c hc
  obtain ⟨d, hd, rfl⟩ := mem_map.mp hc
  have hvalid := all_eq_true.mp h.valid d ((isInfix_trim h.text).subset hd)
  rw [isPlainUnit, isHostUnit_lower hvalid]
  rfl

/-- What an accepted request saves. -/
theorem update_ok {row saved : Settings} {dto : UpdatePanelDomain} {installDir : Option JsString}
    (h : update row dto installDir = .ok saved) :
    saved = ⟨some dto.webHost.normalized, some dto.apiHost.normalized, (match dto.acmeEmail with
        | some email => blankToNull email
        | none => row.acmeEmail), dto.restrictPorts.getD row.restrictPorts⟩ := by
  simp only [update] at h
  split at h
  · cases h
  · cases hassert : assertRestrictPortsAllowed dto.webHost.normalized dto.apiHost.normalized
        (dto.restrictPorts.getD row.restrictPorts) with
    | error message =>
      rw [hassert] at h
      cases h
    | ok u =>
      rw [hassert] at h
      by_cases hdir : ((installDir.map trim).getD []) = []
      · simp only [hdir, if_true] at h
        cases h
      · simp only [hdir, if_false] at h
        exact (Except.ok.inj h).symm

/-- What a request does not mention is in effect as before. -/
structure KeptUnmentioned (e : Setting) (row : Settings) (dto : UpdatePanelDomain)
    (saved : Settings) (content : JsString) : Prop where
  email : dto.acmeEmail = none → valueOf (js "PROXY_ACME_EMAIL") (applied e saved content) =
    valueOf (js "PROXY_ACME_EMAIL") content
  restrictPorts : dto.restrictPorts = none → saved.restrictPorts = row.restrictPorts
  others : ∀ key, IsName key → key ∉ KEYS →
    valueOf key (applied e saved content) = valueOf key content

section Saved
variable {row saved : Settings} {dto : UpdatePanelDomain} {installDir : Option JsString}
  (h : update row dto installDir = .ok saved) (hmail : Plain (saved.acmeEmail.getD []))
include h hmail

theorem plain_variables : ∀ v ∈ variablesOf saved, IsName v.1 ∧ Plain v.2 := by
  have hurl : ∀ host : Host, Plain (js "https://" ++ host.normalized) := fun host =>
    forall_mem_append.mpr ⟨all_eq_true.mp (by decide), host.plain⟩
  intro v hv
  refine ⟨isName_variables saved v hv, ?_⟩
  revert v
  rw [variablesOf]
  obtain ⟨hweb, hapi⟩ : saved.webHost = some dto.webHost.normalized ∧
      saved.apiHost = some dto.apiHost.normalized := by rw [update_ok h]; exact ⟨rfl, rfl⟩
  rw [hweb, hapi]
  simp only [getD_some, forall_mem_cons]
  exact ⟨dto.webHost.plain, dto.apiHost.plain, hmail, hurl _, hurl _,
    all_eq_true.mp (by decide), fun v hv => absurd hv not_mem_nil⟩

/-- The file behind the script, as lines: nothing but the variables of the script has changed. -/
theorem applied_lines (e : Setting) (hended : Ended content) : ∃ ls,
    (∀ e', applied e' saved (applied e saved content) = applied e saved content) ∧
      Sed.lines (applied e saved content) = scripted (variablesOf saved) ls ∧ Sed.lines content = ls := by
  obtain ⟨ls, rest, rfl, hls, hrest⟩ := Sed.exists_unlines content
  rw [(ended_unlines hrest).mp hended, append_nil]
  have hvs := plain_variables h hmail
  obtain ⟨happlied, hkept⟩ := applied_unlines e hvs hls
  refine ⟨ls, fun e' => ?_, ?_, lines_unlines hls⟩
  · rw [applied, applied, happlied, (applied_unlines e' hvs hkept).1,
      scripted_eq_self (setTo_variables saved ls)]
  · rw [applied, happlied, lines_unlines hkept]

theorem valueOf_of_mem (e : Setting) (hended : Ended content) :
    ∀ v ∈ variablesOf saved, valueOf v.1 (applied e saved content) = v.2 := by
  obtain ⟨ls, -, hlines, -⟩ := applied_lines h hmail e hended
  intro v hv
  rw [valueOf, hlines]
  exact (setTo_variables saved ls v hv).valueIn_eq

/-- **The e-mail that is written** is that of the row that is saved. -/
theorem valueOf_applied (e : Setting) (hended : Ended content) :
    valueOf (js "PROXY_ACME_EMAIL") (applied e saved content) = saved.acmeEmail.getD [] ∧
      ∀ key, IsName key → key ∉ KEYS →
        valueOf key (applied e saved content) = valueOf key content := by
  refine ⟨valueOf_of_mem h hmail e hended (js "PROXY_ACME_EMAIL", saved.acmeEmail.getD []) (by
    simp [variablesOf]), fun key hkey hnot => ?_⟩
  obtain ⟨ls, -, hlines, hbefore⟩ := applied_lines h hmail e hended
  rw [valueOf, valueOf, hlines, hbefore, valueIn, valueIn, ← about, about_scripted
    (isName_variables saved) hkey fun v hv heq => hnot (heq ▸ mem_map_of_mem (f := Prod.fst) hv)]
  rfl

end Saved

/-- A row that was never saved, and a request for two hosts. -/
def noMail : Settings := ⟨none, none, none, false⟩

def hostsOnly : UpdatePanelDomain :=
  ⟨⟨js "panel.example.com", rfl⟩, ⟨js "api.example.com", rfl⟩, none, none⟩

def hostsSaved : Settings :=
  ⟨some (js "panel.example.com"), some (js "api.example.com"), none, false⟩

def mailInFile : JsString := js "PROXY_ACME_EMAIL=ops@example.com\n"

theorem update_hostsOnly : update noMail hostsOnly (some (js "/opt/aoox")) = .ok hostsSaved := rfl

theorem plain_nil : Plain ([] : JsString) := fun _ hc => absurd hc not_mem_nil

end Aoox.PanelDomain
