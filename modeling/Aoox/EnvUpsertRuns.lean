import Aoox.EnvUpsert

/-! # Setting a variable of the installation: what a run leaves

A line for the key is replaced by `sed` (`edited_lines`), and behind it one is added
(`added_iff`): the first needs exactly one line of the key and a value without backslashes and
names of variables, the second a text that ends where a line ends.
-/
namespace Aoox.EnvUpsert
open JsString Shell List Option

/-! ## Lines of the key -/

section Lines
variable {key content : JsString} {l : JsString}

theorem not_mem_line {value : JsString} (hkey : IsName key) (hvalue : cu '\n' ∉ value) :
    cu '\n' ∉ key ++ js "=" ++ value := by
  have hletters := hkey.all (p := fun c => c ≠ cu '\n') (by decide)
  simp only [mem_append, not_or]
  refine ⟨⟨fun hmem => ?_, by decide⟩, hvalue⟩
  exact absurd rfl (of_decide_eq_true (hletters _ hmem))

/-- **The lines of the key are replaced**, the others are not. -/
theorem edited_lines {out : JsString → JsString} (hout : ∀ l, cu '\n' ∉ l → cu '\n' ∉ out l)
    (hfront : ∀ l, key ++ js "=" <+: out l) :
    let edited := Sed.editLines (fun l => if key ++ js "=" <+: l then out l else l) content
    keyLines key edited = (keyLines key content).map out ∧
      otherLines key edited = otherLines key content := by
  intro edited
  obtain ⟨ls, rest, rfl, hls, hrest⟩ := Sed.exists_unlines content
  have hline : ∀ l, cu '\n' ∉ l → cu '\n' ∉ if key ++ js "=" <+: l then out l else l := by
    intro l hl
    split_ifs
    · exact hout l hl
    · exact hl
  have hne : rest ≠ [] → (if key ++ js "=" <+: rest then out rest else rest) ≠ [] := by
    intro hempty
    split_ifs
    · intro habsurd
      have hstarts := hfront rest
      rw [habsurd] at hstarts
      exact absurd (append_eq_nil_iff.mp (prefix_nil.mp hstarts)).2 (by decide)
    · exact hempty
  have hlines : Sed.lines edited = (Sed.lines (Sed.unlines ls ++ rest)).map
      fun l => if key ++ js "=" <+: l then out l else l := Sed.lines_editLines hls hrest hline hne
  have hmap : ∀ ms : List JsString,
      ((ms.map fun l => if key ++ js "=" <+: l then out l else l).filter fun l => key ++ js "=" <+: l) =
          (ms.filter fun l => key ++ js "=" <+: l).map out ∧
        ((ms.map fun l => if key ++ js "=" <+: l then out l else l).filter
          fun l => ¬ key ++ js "=" <+: l) = ms.filter fun l => ¬ key ++ js "=" <+: l := by
    intro ms
    induction ms with
    | nil => exact ⟨rfl, rfl⟩
    | cons m ms ih =>
      by_cases hm : key ++ js "=" <+: m
      · simp [hm, hfront m, ih.1]
        simpa using ih.2
      · simp [hm, ih.1]
        simpa using ih.2
  rw [keyLines, otherLines, hlines]
  exact hmap _

/-- A text ends where a line ends if nothing is behind its complete lines. -/
theorem ended_unlines {ls : List JsString} {rest : JsString} (hrest : cu '\n' ∉ rest) :
    Ended (Sed.unlines ls ++ rest) ↔ rest = [] := by
  constructor
  · rintro (hempty | hlast)
    · exact (append_eq_nil_iff.mp hempty).2
    · by_contra hne
      rw [getLast?_append_of_ne_nil _ hne] at hlast
      exact hrest (List.mem_of_getLast? hlast)
  · rintro rfl
    rw [append_nil]
    rcases eq_nil_or_concat ls with rfl | ⟨ms, l, rfl⟩
    · exact Or.inl rfl
    · refine Or.inr ?_
      rw [concat_eq_append, Sed.unlines_append]
      have hone : Sed.unlines [l] = l ++ [cu '\n'] := append_nil _
      rw [hone, ← append_assoc, getLast?_concat]

/-- **A line that is added** is a line of its own, and the only one of the key, or it is not
what is meant. -/
theorem added_iff {value : JsString} (hkey : IsName key) (hvalue : cu '\n' ∉ value) :
    let line := key ++ js "=" ++ value
    let added := content ++ (line ++ [cu '\n'])
    keyLines key added = [line] ∧ otherLines key added = otherLines key content ↔
      keyLines key content = [] ∧ Ended content := by
  intro line added
  obtain ⟨ls, rest, rfl, hls, hrest⟩ := Sed.exists_unlines content
  have hline : cu '\n' ∉ line := not_mem_line hkey hvalue
  have hadded : Sed.lines added = ls ++ [rest ++ line] := Sed.lines_added hls hrest hline
  have hlines : Sed.lines (Sed.unlines ls ++ rest) = ls ++ if rest = [] then [] else [rest] :=
    Sed.lines_unlines hls hrest
  have hstarts : key ++ js "=" <+: line := prefix_append _ _
  have hne : line ≠ [] := by
    intro habsurd
    rw [habsurd] at hstarts
    exact absurd (append_eq_nil_iff.mp (prefix_nil.mp hstarts)).2 (by decide)
  rw [keyLines, keyLines, otherLines, otherLines, hadded, hlines, ended_unlines hrest]
  by_cases hempty : rest = []
  · subst hempty
    simp [hstarts]
  · simp only [filter_append, hempty, and_false, iff_false, not_and]
    intro hkeys hothers
    by_cases hlonger : key ++ js "=" <+: rest ++ line
    · have hlast : rest ++ line = line := by
        have hends := congrArg getLast? hkeys
        simpa [hlonger] using hends
      exact hempty (append_left_eq_self.mp hlast)
    · have hshorter : ¬ key ++ js "=" <+: rest :=
        fun hrestKey => hlonger (hrestKey.trans (prefix_append _ _))
      have hlast : rest ++ line = rest := by
        have hends := congrArg getLast? hothers
        simpa [hlonger, hshorter] using hends
      exact hne (append_right_eq_self.mp hlast)

end Lines

/-! ## The replacement -/

section Replacement
variable {key value : JsString} (hkey : IsName key)
include hkey

/-- The expression and the front of the replacement stand for themselves. -/
theorem name_stands : (key ++ js "=").all Sed.isLiteral = true ∧
    (key ++ js "=").all Sed.isPlainPart = true ∧ cu '/' ∉ key ++ js "=" := by
  have hall : ∀ p : CodeUnit → Bool, (letters : List CodeUnit).all p = true → p (cu '=') = true →
      (key ++ js "=").all p = true := by
    intro p hletters hequals
    have hend : js "=" = [cu '='] := by decide
    rw [all_append, all_eq_true.mpr (hkey.all hletters), Bool.true_and, hend, all_cons, hequals]
    rfl
  refine ⟨hall _ (by decide) (by decide), hall _ (by decide) (by decide), fun hmem => ?_⟩
  have hslash := hall (fun c => c ≠ cu '/') (by decide) (by decide)
  exact of_decide_eq_true (all_eq_true.mp hslash _ hmem) rfl

/-- **What `sed` does with the script.** -/
theorem edit_script (escape : CodeUnit → Option JsString) (content : JsString) :
    Sed.edit escape (sedHead key ++ (halfEscaped value ++ [cu '/'])) content =
      (Sed.parseParts escape (halfEscaped value ++ [cu '/'])).map fun parts =>
        Sed.editLines (fun l => if key ++ js "=" <+: l then
          key ++ js "=" ++ parts.flatMap (Sed.Part.fill l) else l) content := by
  obtain ⟨hliteral, hplain, hslash⟩ := name_stands hkey
  have hscript : sedHead key ++ (halfEscaped value ++ [cu '/']) =
      sign 's' :: sign '/' :: sign '^' :: ((key ++ js "=") ++ sign '.' :: sign '*' :: sign '/' ::
        ((key ++ js "=") ++ (halfEscaped value ++ [cu '/']))) := by
    have hmiddle : js "=.*/" = js "=" ++ [sign '.', sign '*', sign '/'] := by decide
    rw [sedHead, hmiddle]
    simp only [append_assoc, cons_append, nil_append]
    rfl
  have hfill : ∀ (parts : List (Sed.Part CodeUnit)) l,
      ((key ++ js "=").map Sed.Part.char ++ parts).flatMap (Sed.Part.fill l) =
        key ++ js "=" ++ parts.flatMap (Sed.Part.fill l) := by
    intro parts l
    rw [flatMap_append, Sed.fill_chars]
  rw [hscript, Sed.edit_word hliteral hslash, Sed.parseParts_plains escape hplain (by simp),
    Option.map_map]
  simp only [Function.comp_def, hfill]

end Replacement

/-- **A value without backslashes** is put out as it is. -/
theorem parseParts_value (escape : CodeUnit → Option JsString) {value : JsString}
    (hunits : ∀ c ∈ value, c ≠ cu '\n') (hback : cu '\\' ∉ value) :
    Sed.parseParts escape (halfEscaped value ++ [cu '/']) = some (value.map .char) := by
  induction value with
  | nil => rfl
  | cons c value ih =>
    rw [forall_mem_cons] at hunits
    rw [mem_cons, not_or] at hback
    have hrest := ih hunits.2 hback.2
    by_cases hguarded : c = cu '&' ∨ c = cu '/'
    · have hhalf : halfEscaped (c :: value) ++ [cu '/'] =
          sign '\\' :: c :: (halfEscaped value ++ [cu '/']) := by
        rw [halfEscaped, flatMap_cons, if_pos hguarded]
        rfl
      have hc : Sed.isGuarded c = true := by
        rw [Sed.isGuarded, Bool.or_eq_true, decide_eq_true_eq, decide_eq_true_eq]
        exact hguarded
      rw [hhalf, Sed.parseParts_guarded escape hc, hrest]
      rfl
    · have hhalf : halfEscaped (c :: value) ++ [cu '/'] = c :: (halfEscaped value ++ [cu '/']) := by
        rw [halfEscaped, flatMap_cons, if_neg hguarded]
        rfl
      have hc : Sed.isPlainPart c = true := by
        rw [not_or] at hguarded
        simp only [Sed.isPlainPart, Sed.isGuarded, Bool.and_eq_true, Bool.not_eq_true',
          Bool.or_eq_false_iff, decide_eq_true_eq, decide_eq_false_iff_not]
        exact ⟨⟨hguarded, Ne.symm hback.1⟩, hunits.1⟩
      rw [hhalf, Sed.parseParts_plain escape hc (by simp), hrest]
      rfl

theorem halfEscaped_counts (value : JsString) :
    (halfEscaped value).count (sign '\\') = value.count (sign '\\') + value.countP Sed.isGuarded ∧
      (halfEscaped value).countP Sed.isGuarded = value.countP Sed.isGuarded ∧
      ((halfEscaped value).countP fun c => !Sed.isGuarded c && c ≠ sign '\\') =
        value.countP fun c => !Sed.isGuarded c && c ≠ sign '\\' := by
  induction value with
  | nil => exact ⟨rfl, rfl, rfl⟩
  | cons c value ih =>
    obtain ⟨hback, hguarded, hplain⟩ := ih
    by_cases hc : c = cu '&' ∨ c = cu '/'
    · have hunit : Sed.isGuarded c = true := by
        rw [Sed.isGuarded, Bool.or_eq_true, decide_eq_true_eq, decide_eq_true_eq]
        exact hc
      have hne : (c == sign '\\') = false := by
        rcases hc with rfl | rfl
        · decide
        · decide
      have hhalf : halfEscaped (c :: value) = sign '\\' :: c :: halfEscaped value := by
        rw [halfEscaped, flatMap_cons, if_pos hc]
        rfl
      rw [hhalf]
      simp only [count_cons, countP_cons, hne, hunit, hback, hguarded, hplain,
        Sed.guarded_backslash, beq_self_eq_true]
      refine ⟨?_, ?_, ?_⟩
      · simp only [if_true, Bool.false_eq_true, if_false]
        omega
      · simp
      · simp
    · have hhalf : halfEscaped (c :: value) = c :: halfEscaped value := by
        rw [halfEscaped, flatMap_cons, if_neg hc]
        rfl
      have hunit : Sed.isGuarded c = false := by
        rw [Sed.isGuarded, Bool.or_eq_false_iff, decide_eq_false_iff_not, decide_eq_false_iff_not]
        exact not_or.mp hc
      rw [hhalf]
      simp only [count_cons, countP_cons, hunit, hback, hguarded, hplain]
      refine ⟨?_, trivial, trivial⟩
      simp only [Bool.false_eq_true, if_false]
      omega

variable {parts : List (Sed.Part CodeUnit)}

/-- **A value with a backslash** is not put out as it is, whatever the line was. -/
theorem no_backslash {value l : JsString}
    (hparts : Sed.parseParts (fun _ => none) (halfEscaped value ++ [cu '/']) = some parts)
    (hl : cu '=' ∈ l) (hout : parts.flatMap (Sed.Part.fill l) = value) : cu '\\' ∉ value := by
  obtain ⟨used, whole, hplain, hback, hguarded, -⟩ := Sed.parseParts_counts hparts l
  obtain ⟨hhalfBack, hhalfGuarded, hhalfPlain⟩ := halfEscaped_counts value
  have hline : 0 < l.countP fun c => !Sed.isGuarded c && c ≠ sign '\\' :=
    countP_pos_iff.mpr ⟨_, hl, by decide⟩
  rw [hout, countP_append, hhalfPlain] at hplain
  rw [hout] at hback
  rw [count_append, countP_append, hhalfBack, hhalfGuarded] at hguarded
  have hend : [cu '/'].count (sign '\\') = 0 ∧ [cu '/'].countP Sed.isGuarded = 1 := by decide
  have hnone : whole = 0 := by
    by_contra hsome
    have hmany := Nat.mul_pos (Nat.pos_of_ne_zero hsome) hline
    omega
  subst hnone
  rw [hend.1, hend.2] at hguarded
  rw [Nat.zero_mul] at hback
  have hcount : value.count (sign '\\') = 0 := by omega
  exact count_eq_zero.mp hcount

/-! ## The calls -/

def grepArgv (key : JsString) : List JsString :=
    [js "grep", js "-q", js "^" ++ key ++ js "=", ENV_FILE]

def sedArgv (script : JsString) : List JsString := [js "sed", js "-i", script, ENV_FILE]

/-- The shell behind `grep`. -/
def grepped (vars : JsString → JsString) (key content : JsString) : State CodeUnit JsString :=
  let code := if keyLines key content = [] then 1 else 0
  { initial vars content with status := code, calls := [⟨grepArgv key, [], content, code, []⟩] }

/-- The shell behind `sed`. -/
def seded (s : State CodeUnit JsString) (script : JsString) (edited : Option JsString) :
    State CodeUnit JsString :=
  let code := if edited.isSome then 0 else 1
  { s with
    status := code
    world := edited.getD s.world
    calls := s.calls ++ [⟨sedArgv script, [], s.world, code, []⟩] }

variable {ps : Word CodeUnit}

section Calls
variable {key content : JsString} (e : Setting)
  (sub : JsString → State CodeUnit JsString → JsString × State CodeUnit JsString)

theorem static_literal : ∀ t ∈ [js "grep", js "-q", js "sed", js "-i", js "echo", ENV_FILE],
    isStatic (literal t) = true := by
  intro t ht
  fin_cases ht
  all_goals decide

theorem static_quote (t : JsString) : isStatic (quotePieces t) = true :=
  isStatic_safe (cons_ne_nil _ _) (safe_quote t)

theorem search_key (hkey : IsName key) :
    Sed.search (js "^" ++ key ++ js "=") content = if keyLines key content = [] then 1 else 0 := by
  have hpattern : js "^" ++ key ++ js "=" = sign '^' :: (key ++ js "=") := append_assoc _ _ _
  have hany : ((Sed.lines content).any fun l => decide (key ++ js "=" <+: l)) = true ↔
      keyLines key content ≠ [] := by
    rw [keyLines, ne_eq, List.filter_eq_nil_iff, List.any_eq_true]
    simp
  rw [hpattern, Sed.search_word (name_stands hkey).1]
  by_cases hkeys : keyLines key content = []
  · rw [if_neg (fun h => (hany.mp h) hkeys), if_pos hkeys]
  · rw [if_pos (hany.mpr hkeys), if_neg hkeys]

theorem host_grep (t : Tools) (pattern content : JsString) :
    t.host.exec [js "grep", js "-q", pattern, ENV_FILE] [] content =
      (Sed.search pattern content, [], content) := by
  simp only [Tools.host, and_self, if_true]

theorem host_sed (t : Tools) (script content : JsString) : t.host.exec (sedArgv script) [] content =
      match Sed.edit t.escape script content with
      | some edited => (0, [], edited)
      | none => (1, [], content) := by
  have hname : js "sed" ≠ js "grep" := by decide
  cases hedit : Sed.edit t.escape script content with
  | some edited =>
    simp only [Tools.host, sedArgv, hname, false_and, if_false, and_self, if_true, hedit]
  | none => simp only [Tools.host, sedArgv, hname, false_and, if_false, and_self, if_true, hedit]

theorem exec_grep (hkey : IsName key) (vars : JsString → JsString) (content : JsString) :
    exec e.tools.host.toHost e.pipefail sub (.simple [] [literal (js "grep"), literal (js "-q"),
        quotePieces (js "^" ++ key ++ js "="), literal ENV_FILE] []) true [] (initial vars content) =
      (grepped vars key content, []) := by
  have hstatic : [literal (js "grep"), literal (js "-q"), quotePieces (js "^" ++ key ++ js "="),
      literal ENV_FILE].all isStatic = true := by
    simp only [all_cons, all_nil, static_quote, static_literal _ (mem_cons_self),
      static_literal (js "-q") (by simp), static_literal ENV_FILE (by simp)]
    rfl
  have hargv : argvOf e.tools.host.toHost (initial vars content) [literal (js "grep"),
      literal (js "-q"), quotePieces (js "^" ++ key ++ js "="), literal ENV_FILE] =
        grepArgv key := by
    rw [argvOf_static hstatic]
    simp only [map_cons, map_nil, wordText_literal, wordText_quote]
    rfl
  have hprogram : builtin e.tools.host.toHost (grepArgv key) (initial vars content) = none :=
    builtin_none (by decide)
  have hcall : e.tools.host.exec (grepArgv key) [] content =
      (if keyLines key content = [] then 1 else 0, [], content) := by
    rw [grepArgv, host_grep, search_key hkey]
  rw [exec_argv (all_plainWord hstatic) hargv (cons_ne_nil _ _), hprogram, getD_none,
    settle_of_false rfl, external]
  have hworld : (initial vars content).world = content := rfl
  rw [hworld, hcall]
  rfl

theorem wordFields_double (h : ∀ p ∈ ps, (∃ c, p = .char c true) ∨ ∃ n, p = .var n true)
    (host : Host CodeUnit JsString) (s : State CodeUnit JsString) :
    plainWord (.quotes :: ps) = true ∧ wordFields host s (.quotes :: ps) =
      [text (marks s.value ps)] := by
  have hquoted : ∀ m ∈ marks s.value ps, ∃ c, m = .char c true := by
    induction ps with
    | nil => exact fun m hm => (by cases hm)
    | cons p ps ih =>
      rw [forall_mem_cons] at h
      have hps := ih h.2
      rcases h.1 with ⟨c, rfl⟩ | ⟨n, rfl⟩
      · exact forall_mem_cons.mpr ⟨⟨c, rfl⟩, hps⟩
      · intro m hm
        rcases mem_append.mp hm with hm | hm
        · obtain ⟨c, -, rfl⟩ := mem_map.mp hm
          exact ⟨c, rfl⟩
        · exact hps m hm
  have hplain : plainWord (.quotes :: ps) = true := by
    rw [plainWord, Bool.not_eq_true', List.any_eq_false]
    intro p hp
    rcases mem_cons.mp hp with rfl | hp
    · exact Bool.false_ne_true
    · rcases h p hp with ⟨c, rfl⟩ | ⟨n, rfl⟩
      · exact Bool.false_ne_true
      · exact Bool.false_ne_true
  have hsplit : ∀ m ∈ Mark.quotes :: marks s.value ps, m.isSplit = false := by
    refine forall_mem_cons.mpr ⟨rfl, fun m hm => ?_⟩
    obtain ⟨c, rfl⟩ := hquoted m hm
    rfl
  have hpattern : isPattern (Mark.quotes :: marks s.value ps) = false := by
    have hmem : ∀ c : CodeUnit, (Mark.quotes :: marks s.value ps).contains (.char c false) = false := by
      intro c
      rw [contains_eq_mem, decide_eq_false_iff_not, mem_cons, not_or]
      refine ⟨fun heq => (by cases heq), fun hm => ?_⟩
      obtain ⟨d, hd⟩ := hquoted _ hm
      cases hd
    simp only [isPattern, hmem]
    rfl
  refine ⟨hplain, ?_⟩
  have hmarks : marks s.value (.quotes :: ps) = .quotes :: marks s.value ps := rfl
  rw [wordFields, hmarks, fields_unsplit (cons_ne_nil _ _) hsplit, flatMap_singleton,
    pathnames, hpattern]
  rfl

theorem exec_sed (h : ∀ p ∈ ps, (∃ c, p = .char c true) ∨ ∃ n, p = .var n true)
    {s : State CodeUnit JsString} (hlive : s.errexit = false) :
    exec e.tools.host.toHost e.pipefail sub (.simple [] [literal (js "sed"), literal (js "-i"),
        .quotes :: ps, literal ENV_FILE] []) true [] s =
      (seded s (text (marks s.value ps)) (Sed.edit e.tools.escape (text (marks s.value ps)) s.world),
        []) := by
  obtain ⟨hplain, hfields⟩ := wordFields_double h e.tools.host.toHost s
  have hliterals : ∀ t ∈ [js "sed", js "-i", ENV_FILE],
      wordFields e.tools.host.toHost s (literal t) = [t] := by
    intro t ht
    rw [wordFields_static (static_literal t ?_), wordText_literal]
    fin_cases ht
    all_goals simp
  have hwords : [literal (js "sed"), literal (js "-i"), .quotes :: ps, literal ENV_FILE].all
      plainWord = true := by
    simp only [all_cons, all_nil, plainWord_literal, hplain]
    rfl
  have hargv : argvOf e.tools.host.toHost s [literal (js "sed"), literal (js "-i"), .quotes :: ps,
      literal ENV_FILE] = sedArgv (text (marks s.value ps)) := by
    simp only [argvOf, flatMap_cons, flatMap_nil, hfields, hliterals _ mem_cons_self,
      hliterals (js "-i") (by simp), hliterals ENV_FILE (by simp)]
    rfl
  have hprogram : builtin e.tools.host.toHost (sedArgv (text (marks s.value ps))) s = none :=
    builtin_none (by decide)
  rw [exec_argv hwords hargv (cons_ne_nil _ _), hprogram, getD_none, settle_of_false hlive]
  generalize text (marks s.value ps) = script
  rw [external, host_sed]
  cases Sed.edit e.tools.escape script s.world <;> rfl

theorem execLast_echo (key value : JsString) (s : State CodeUnit JsString)
    (hlive : s.errexit = false) :
    let r := (execLast e.tools.host e.pipefail sub (literal ENV_FILE)
      (.simple [] [literal (js "echo"), quotePieces (key ++ js "=" ++ value)] []) false [] s).1
    r.world = s.world ++ (key ++ js "=" ++ value ++ [cu '\n']) ∧ r.calls = s.calls := by
  intro r
  have hstatic : [literal (js "echo"), quotePieces (key ++ js "=" ++ value)].all isStatic = true := by
    simp only [all_cons, all_nil, static_quote, static_literal (js "echo") (by simp)]
    rfl
  have hargv : argvOf e.tools.host.toHost s
      [literal (js "echo"), quotePieces (key ++ js "=" ++ value)] =
        [js "echo", key ++ js "=" ++ value] := by
    rw [argvOf_static hstatic]
    simp only [map_cons, map_nil, wordText_literal, wordText_quote]
  have hecho : builtin e.tools.host.toHost [js "echo", key ++ js "=" ++ value] s =
      some ({ s with status := 0 }, key ++ js "=" ++ value ++ [cu '\n']) := by
    have hnames : word ":" ≠ js "echo" ∧ word "true" ≠ js "echo" ∧ word "set" ≠ js "echo" ∧
        word "exit" ≠ js "echo" ∧ word "[" ≠ js "echo" ∧ word "echo" = js "echo" := by decide
    obtain ⟨h₁, h₂, h₃, h₄, h₅, h₆⟩ := hnames
    rw [builtin, if_neg (not_or.mpr ⟨h₁.symm, h₂.symm⟩), if_neg h₃.symm, if_neg h₄.symm,
      if_neg h₅.symm, if_pos h₆.symm, intercalate_singleton]
    rfl
  have hpath : text (expandWord sub (literal ENV_FILE) s).1 = ENV_FILE := by
    rw [expandWord_plain (plainWord_literal _), marks_literal, text_unquoted]
  have hexec : exec e.tools.host.toHost e.pipefail sub
      (.simple [] [literal (js "echo"), quotePieces (key ++ js "=" ++ value)] []) false [] s =
        ({ s with status := 0 }, key ++ js "=" ++ value ++ [cu '\n']) := by
    rw [exec_argv (all_plainWord hstatic) hargv (cons_ne_nil _ _), hecho, getD_some,
      settle_of_false hlive]
  have hopen : e.tools.host.openAppend ENV_FILE s.world = some s.world := rfl
  have hon : s.on s.world = s := rfl
  have hadd : e.tools.host.appendFile ENV_FILE (key ++ js "=" ++ value ++ [cu '\n']) s.world =
      s.world ++ (key ++ js "=" ++ value ++ [cu '\n']) := by
    simp only [Tools.host, if_true]
  have hr : r = State.on { s with status := 0 } (s.world ++ (key ++ js "=" ++ value ++ [cu '\n'])) := by
    simp only [r, execLast, hpath, hopen, hon, hexec, hadd]
  rw [hr]
  exact ⟨rfl, rfl⟩

end Calls

/-! ## What is left -/

section After
variable {key value : JsString} {sed : Word CodeUnit} (e : Setting) (content : JsString)

theorem no_quote (hkey : IsName key) : cu '\'' ∉ key := by
  have hletters := hkey.all (p := fun c => c ≠ cu '\'') (by decide)
  exact fun hmem => of_decide_eq_true (hletters _ hmem) rfl

section Line
variable (hkey : IsName key) (hvalue : cu '\'' ∉ value)
include hkey hvalue

theorem after_eq (hsed : Grows (cu '"' :: (sedScript key (escaped value) ++ [cu '"'])) sed) :
    ∃ sub, after e key value content = (execLast e.tools.host e.pipefail sub (literal ENV_FILE)
      (upsertCommand key value sed) false [] (initial e.vars content)).1 := by
  refine ⟨substitute e.tools.host.toHost e.pipefail (envUpsertLine key value).length, ?_⟩
  rw [after, shAppend, parse_line (no_quote hkey) hvalue hsed]

/-- Without a line of the key one is added. -/
theorem after_absent (hsed : Grows (cu '"' :: (sedScript key (escaped value) ++ [cu '"'])) sed)
    (hkeys : keyLines key content = []) :
    (after e key value content).world = content ++ (key ++ js "=" ++ value ++ [cu '\n']) ∧
      (after e key value content).calls.map Call.argv = [grepArgv key] := by
  obtain ⟨sub, hafter⟩ := after_eq e content hkey hvalue hsed
  have hfailed : (grepped e.vars key content).status ≠ 0 := by simp [grepped, hkeys]
  have hand : exec e.tools.host.toHost e.pipefail sub (.and
      (.simple [] [literal (js "grep"), literal (js "-q"), quotePieces (js "^" ++ key ++ js "="),
        literal ENV_FILE] [])
      (.simple [] [literal (js "sed"), literal (js "-i"), sed, literal ENV_FILE] [])) true []
        (initial e.vars content) = (grepped e.vars key content, []) :=
    exec_and_stops (exec_grep e sub hkey e.vars content) hfailed
  obtain ⟨hworld, hcalls⟩ := execLast_echo e sub key value (grepped e.vars key content) rfl
  rw [hafter, upsertCommand, execLast_or_goes hand rfl hfailed, hworld, hcalls]
  exact ⟨rfl, rfl⟩

/-- A line of the key is left to `sed`. -/
theorem after_present (hps : ∀ p ∈ ps, (∃ c, p = .char c true) ∨ ∃ n, p = .var n true)
    (hsed : Grows (cu '"' :: (sedScript key (escaped value) ++ [cu '"'])) (.quotes :: ps))
    (hkeys : keyLines key content ≠ []) :
    let script := text (marks (grepped e.vars key content).value ps)
    (after e key value content).world = (Sed.edit e.tools.escape script content).getD
        (content ++ (key ++ js "=" ++ value ++ [cu '\n'])) ∧
      (after e key value content).calls.map Call.argv = [grepArgv key, sedArgv script] := by
  intro script
  obtain ⟨sub, hafter⟩ := after_eq e content hkey hvalue hsed
  have hfound : (grepped e.vars key content).status = 0 := by simp [grepped, hkeys]
  have hand : (exec e.tools.host.toHost e.pipefail sub (.and
      (.simple [] [literal (js "grep"), literal (js "-q"), quotePieces (js "^" ++ key ++ js "="),
        literal ENV_FILE] [])
      (.simple [] [literal (js "sed"), literal (js "-i"), .quotes :: ps, literal ENV_FILE] [])) true []
        (initial e.vars content)).1 =
      seded (grepped e.vars key content) script (Sed.edit e.tools.escape script content) := by
    rw [exec_and_goes (exec_grep e sub hkey e.vars content) rfl hfound, exec_sed e sub hps rfl]
    rfl
  rw [hafter, upsertCommand]
  cases hedit : Sed.edit e.tools.escape script content with
  | some edited =>
    rw [hedit] at hand
    rw [execLast_or_stops rfl (by rw [hand]; rfl), hand]
    exact ⟨rfl, rfl⟩
  | none =>
    rw [hedit] at hand
    have hfailed : (seded (grepped e.vars key content) script none).status ≠ 0 := Nat.one_ne_zero
    rw [execLast_or_goes rfl (by rw [hand]; rfl) (by rw [hand]; exact hfailed), hand]
    obtain ⟨hworld, hcalls⟩ :=
      execLast_echo e sub key value (seded (grepped e.vars key content) script none) rfl
    rw [hworld, hcalls]
    exact ⟨rfl, rfl⟩

end Line

end After

theorem text_longer (hps : ∀ p ∈ ps, (∃ c, p = .char c true) ∨ ∃ n, p = .var n true)
    {v v' : JsString → JsString} (hle : ∀ n, (v n).length ≤ (v' n).length) :
    (text (marks v ps)).length ≤ (text (marks v' ps)).length ∧
      ∀ n, .var n true ∈ ps → (v n).length < (v' n).length →
        (text (marks v ps)).length < (text (marks v' ps)).length := by
  induction ps with
  | nil => exact ⟨le_rfl, fun n hn => (by cases hn)⟩
  | cons p ps ih =>
    rw [forall_mem_cons] at hps
    obtain ⟨ihle, ihlt⟩ := ih hps.2
    rcases hps.1 with ⟨c, rfl⟩ | ⟨m, rfl⟩
    · refine ⟨Nat.succ_le_succ ihle, fun n hn hlt => ?_⟩
      rcases mem_cons.mp hn with heq | hn
      · cases heq
      · exact Nat.succ_lt_succ (ihlt n hn hlt)
    · have htext : ∀ u : JsString → JsString, (text (marks u (.var m true :: ps))).length =
          (u m).length + (text (marks u ps)).length := by
        intro u
        rw [marks, text_append, text_expansion, length_append]
      rw [htext, htext]
      refine ⟨Nat.add_le_add (hle m) ihle, fun n hn hlt => ?_⟩
      rcases mem_cons.mp hn with heq | hn
      · obtain rfl : n = m := by injection heq
        exact Nat.add_lt_add_of_lt_of_le hlt ihle
      · exact Nat.add_lt_add_of_le_of_lt (hle m) (ihlt n hn hlt)

theorem text_script (key : JsString) (v : JsString → JsString) (ps : Word CodeUnit) :
    text (marks v ((sedHead key).map (fun c => .char c true) ++ ps)) =
      sedHead key ++ text (marks v ps) := by
  induction sedHead key with
  | nil => rfl
  | cons c t ih => exact congrArg (c :: ·) ih

theorem text_front (v : JsString → JsString) (front : JsString) :
    text (marks v (front.map fun c => .char c true)) = front := by
  induction front with
  | nil => rfl
  | cons c t ih => exact congrArg (c :: ·) ih

/-- A `sed` that knows no other escapes, and no other programs. -/
def strict : Tools := ⟨fun _ _ content => (1, [], content), fun _ _ => [], fun _ => none⟩

def strictly (vars : JsString → JsString) : Setting := ⟨strict, false, vars⟩

variable {key : JsString}

theorem replaced_line {value : JsString} (hkey : IsName key) (hvalue : ∀ c ∈ value, c ≠ cu '\n')
    (hparts : Sed.parseParts (fun _ => none) (halfEscaped value ++ [cu '/']) = some parts) :
    ∀ l, cu '\n' ∉ l → cu '\n' ∉ key ++ js "=" ++ parts.flatMap (Sed.Part.fill l) := by
  intro l hl
  obtain ⟨used, whole, hcounts⟩ := Sed.parseParts_counts hparts l
  refine not_mem_line hkey fun hmem => ?_
  rcases hcounts.inside _ hmem with hmem | hmem
  · rcases mem_append.mp hmem with hmem | hmem
    · obtain ⟨c, hc, hunit⟩ := mem_flatMap.mp hmem
      split_ifs at hunit
      · rcases mem_cons.mp hunit with habsurd | hunit
        · exact absurd habsurd (by decide)
        · exact hvalue c hc (mem_singleton.mp hunit).symm
      · exact hvalue c hc (mem_singleton.mp hunit).symm
    · exact absurd (mem_singleton.mp hmem) (by decide)
  · exact hl hmem

section Results
variable {key value content : JsString} (hkey : IsName key)
include hkey

theorem sets_absent (h : Inside key value content) (hkeys : keyLines key content = []) :
    Sets key value content ↔ Ended content := by
  obtain ⟨sed, hsed⟩ := h.read
  have hvalue : cu '\'' ∉ value := fun hmem => (h.units _ hmem).1 rfl
  have hline : cu '\n' ∉ value := fun hmem => (h.units _ hmem).2.1 rfl
  have hadded := @added_iff key content value hkey hline
  have hafter : ∀ e, _ := fun e => after_absent e content hkey hvalue hsed hkeys
  constructor
  · intro hsets
    have hwritten := hsets.written (strictly fun _ => [])
    have hunchanged := hsets.unchanged (strictly fun _ => [])
    rw [(hafter _).1] at hwritten hunchanged
    exact (hadded.mp ⟨hwritten, hunchanged⟩).2
  · intro hended
    obtain ⟨hwritten, hunchanged⟩ := hadded.mpr ⟨hkeys, hended⟩
    refine ⟨fun e => ?_, fun e => ?_, fun e call hcall => ?_, fun e vars => ?_⟩
    · rw [(hafter e).1]
      exact hwritten
    · rw [(hafter e).1]
      exact hunchanged
    · have hmem := mem_map_of_mem (f := Call.argv) hcall
      rw [(hafter e).2, mem_singleton] at hmem
      rw [hmem]
      exact Or.inl rfl
    · rw [(hafter e).2, (hafter _).2]

theorem sets_present (h : Inside key value content) (hkeys : keyLines key content ≠ []) :
    Sets key value content ↔ (keyLines key content).length = 1 ∧ Verbatim value := by
  obtain ⟨hquoted, hdollars⟩ := h.quoted hkeys
  obtain ⟨ps, hreads, hgrows⟩ := grows_script hkey hquoted hdollars
  have hvalue : cu '\'' ∉ value := fun hmem => (h.units _ hmem).1 rfl
  have hline : ∀ c ∈ value, c ≠ cu '\n' := fun c hc => (h.units c hc).2.1
  have hps : ∀ p ∈ (sedHead key).map (fun c => Piece.char c true) ++ ps,
      (∃ c, p = .char c true) ∨ ∃ n, p = .var n true := by
    intro p hp
    rcases mem_append.mp hp with hp | hp
    · obtain ⟨c, -, rfl⟩ := mem_map.mp hp
      exact Or.inl ⟨c, rfl⟩
    · exact hreads.quoted p hp
  have hafter := fun e => after_present e content hkey hvalue hps hgrows hkeys
  simp only [text_script] at hafter
  have hplain : hasName value = false → ∀ e : Setting,
      text (marks (grepped e.vars key content).value ps) = halfEscaped value ++ [cu '/'] := by
    intro hname e
    rw [hreads.text hname, text_front]
  constructor
  · intro hsets
    -- A variable in the script shows in the words `sed` is called with.
    have hname : hasName value = false := by
      by_contra hnamed
      obtain ⟨n, hn, hne⟩ := hreads.named (Bool.eq_true_of_not_eq_false hnamed)
      have hcalls := hsets.literal (strictly fun _ => []) fun _ => [cu 'x']
      rw [(hafter _).2, (hafter _).2] at hcalls
      have hsame := congrArg List.length (append_cancel_left
        (List.cons.inj (List.cons.inj (List.cons.inj (List.cons.inj
          (List.cons.inj hcalls).2).1).2).2).1)
      have hvalues : ∀ (vars : JsString → JsString) m, (grepped vars key content).value m =
          if m = [cu '?'] then numeral (grepped vars key content).status else vars m :=
        fun vars m => rfl
      have hle : ∀ m, ((grepped (fun _ => []) key content).value m).length ≤
          ((grepped (fun _ => [cu 'x']) key content).value m).length := by
        intro m
        rw [hvalues, hvalues]
        split_ifs
        · exact le_rfl
        · exact Nat.zero_le _
      have hlt : ((grepped (fun _ => []) key content).value n).length <
          ((grepped (fun _ => [cu 'x']) key content).value n).length := by
        rw [hvalues, hvalues, if_neg hne, if_neg hne]
        exact Nat.one_pos
      exact absurd hsame (Nat.ne_of_lt ((text_longer hreads.quoted hle).2 n hn hlt))
    have hwritten := hsets.written (strictly fun _ => [])
    have hunchanged := hsets.unchanged (strictly fun _ => [])
    rw [(hafter _).1, hplain hname, edit_script hkey] at hwritten hunchanged
    cases hparts : Sed.parseParts (strictly fun _ => []).tools.escape (halfEscaped value ++ [cu '/']) with
    | none =>
      rw [hparts] at hwritten hunchanged
      have hadded := (@added_iff key content value hkey fun hmem => hline _ hmem rfl).mp
        ⟨hwritten, hunchanged⟩
      exact absurd hadded.1 hkeys
    | some parts =>
      rw [hparts, map_some, getD_some,
        (edited_lines (replaced_line hkey hline hparts) fun l => prefix_append _ _).1] at hwritten
      obtain ⟨l, hl, hout⟩ := map_eq_singleton_iff.mp hwritten
      have hstarts : key ++ js "=" <+: l := by
        have hmem : l ∈ keyLines key content := by
          rw [hl]
          exact mem_singleton_self l
        exact of_decide_eq_true (mem_filter.mp hmem).2
      have hequals : cu '=' ∈ l := hstarts.subset (mem_append_right _ (mem_singleton_self (cu '=')))
      refine ⟨by rw [hl]; rfl, ⟨?_, hname⟩⟩
      exact no_backslash hparts hequals (append_cancel_left hout)
  · rintro ⟨hsingle, hverbatim⟩
    obtain ⟨l, hl⟩ := length_eq_one_iff.mp hsingle
    have hparts := fun escape => parseParts_value escape hline hverbatim.noBackslash
    have hout : ∀ m : JsString, cu '\n' ∉ m → cu '\n' ∉ key ++ js "=" ++ value :=
      fun _ _ => not_mem_line hkey fun hmem => hline _ hmem rfl
    obtain ⟨hkeysAfter, hothersAfter⟩ :=
      @edited_lines key content (fun _ => key ++ js "=" ++ value) hout fun _ => prefix_append _ _
    have hworld : ∀ e : Setting, (after e key value content).world = Sed.editLines
        (fun l => if key ++ js "=" <+: l then key ++ js "=" ++ value else l) content := by
      intro e
      rw [(hafter e).1, hplain hverbatim.noName, edit_script hkey, hparts, map_some, getD_some]
      simp only [Sed.fill_chars]
    refine ⟨fun e => ?_, fun e => ?_, fun e call hcall => ?_, fun e vars => ?_⟩
    · rw [hworld, hkeysAfter, hl]
      rfl
    · rw [hworld]
      exact hothersAfter
    · have hmem := mem_map_of_mem (f := Call.argv) hcall
      rw [(hafter e).2, mem_cons, mem_singleton] at hmem
      rcases hmem with hgrep | hsed
      · rw [hgrep]
        exact Or.inl rfl
      · rw [hsed]
        exact Or.inr rfl
    · rw [(hafter e).2, (hafter _).2, hplain hverbatim.noName, hplain hverbatim.noName]

/-- **The line sets the key** of a value that stays in its places exactly if it begins a line
of its own, or there is one line to replace and nothing in the value means something to the shell
or to `sed`. -/
theorem sets_iff_fits (h : Inside key value content) :
    Sets key value content ↔ Fits key value content := by
  by_cases hkeys : keyLines key content = []
  · rw [sets_absent hkey h hkeys]
    exact ⟨fun hended => ⟨fun _ => hended, fun hne => absurd hkeys hne, fun hne => absurd hkeys hne⟩,
      fun hfits => hfits.ended hkeys⟩
  · rw [sets_present hkey h hkeys]
    exact ⟨fun hsets => ⟨fun hempty => absurd hempty hkeys, fun _ => hsets.1, fun _ => hsets.2⟩,
      fun hfits => ⟨hfits.single hkeys, hfits.verbatim hkeys⟩⟩

end Results

/-! ## The keys of the installation -/

theorem isName_key (field : EnvField) : IsName (ENV_KEYS field) := by
  have hall : (ENV_KEYS field).all (fun c => decide (c ∈ (letters : List CodeUnit))) = true := by
    cases field <;> decide
  exact fun c hc => of_decide_eq_true (all_eq_true.mp hall c hc)

/-- **What a request sets.** -/
theorem request_sets_iff (field : EnvField) (given : Given) (content : JsString)
    (h : Inside (ENV_KEYS field) given.stored content) :
    Sets (ENV_KEYS field) given.stored content ↔ Fits (ENV_KEYS field) given.stored content :=
  sets_iff_fits (isName_key field) h

/-- A value of ordinary units stays in its places. -/
theorem inside_of_all {value : JsString} (hkey : IsName key)
    (hunits : value.all (fun c => c ≠ cu '\'' && c ≠ cu '\n' && c ≠ 0 && c ≠ cu '"' && c ≠ cu '`') = true)
    (hwellFormed : wellFormed value = value) (hdollars : dollarsNamed value = true)
    (hstays : staysIn (halfEscaped value) = true) (content : JsString) :
      Inside key value content := by
  have hunit : ∀ c ∈ value, c ≠ cu '\'' ∧ c ≠ cu '\n' ∧ c ≠ 0 ∧ c ≠ cu '"' ∧ c ≠ cu '`' := by
    intro c hc
    have h := all_eq_true.mp hunits c hc
    simp only [Bool.and_eq_true, decide_eq_true_eq] at h
    exact ⟨h.1.1.1.1, h.1.1.1.2, h.1.1.2, h.1.2, h.2⟩
  have hquoted : ∀ c ∈ value, c ≠ cu '"' ∧ c ≠ cu '`' := fun c hc => (hunit c hc).2.2.2
  obtain ⟨ps, -, hgrows⟩ := grows_script hkey hquoted hdollars
  refine ⟨fun c hc => ?_, hwellFormed, ⟨_, hgrows⟩, fun _ => ⟨hquoted, hdollars⟩, fun _ => hstays⟩
  obtain ⟨h₁, h₂, h₃, -⟩ := hunit c hc
  exact ⟨h₁, h₂, h₃⟩

/-- A host that replaces another. -/
theorem request_sets_host :
    Sets (ENV_KEYS .publicIp) (Given.stored (.text (js " 10.0.0.7 "))) (js "A=1\nPUBLIC_IP=\nB=2\n") ↔
      Fits (ENV_KEYS .publicIp) (Given.stored (.text (js " 10.0.0.7 ")))
        (js "A=1\nPUBLIC_IP=\nB=2\n") :=
  request_sets_iff .publicIp (.text (js " 10.0.0.7 ")) (js "A=1\nPUBLIC_IP=\nB=2\n")
    (inside_of_all (isName_key _) (by decide) (by decide) (by decide) (by decide) _)

/-- A password that is a command. -/
theorem password_runs : ¬ ∀ (field : EnvField) (given : Given), accepts field given = true →
    ∀ content, Sets (ENV_KEYS field) given.stored content := by
  intro h
  have hsets := h .terminalSshPassword (.text (js "x';reboot;'")) (by decide) []
  have hcall : ((after (strictly fun _ => []) (ENV_KEYS .terminalSshPassword)
      (Given.stored (.text (js "x';reboot;'"))) []).calls.map Call.argv).contains
        [js "reboot"] = true := by
    decide +kernel
  obtain ⟨call, hmem, hargv⟩ := List.mem_map.mp (List.contains_iff_mem.mp hcall)
  have hprograms := hsets.programs _ call hmem
  rw [hargv] at hprograms
  exact absurd hprograms (by decide)

end Aoox.EnvUpsert
