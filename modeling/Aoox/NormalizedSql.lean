import Aoox.SqlRereading

/-! # What `normalizeSql` keeps

Comments, white space around the statement and the semicolons behind it are to go, and
nothing else: the tokens of the result are the others (`Normalized`).  The patterns do not
know quotes, so they find comments in strings too.  Where they find what the client finds,
where no string goes on across a comment, and where the ends are those of tokens
(`Follows`), the result is the text between the ends with a blank for every comment
(`normalizeSql_eq`), and is read as the text was (`normalized_of_follows`).
-/
open List Option Bool
namespace Aoox.NormalizedSql

open JsString Lexing CommentStripping SqlRereading RowStatements

/-! ## The ends of a text -/

theorem rdropWhile_append_of_pos {α : Type} {p : α → Bool} {b : List α} (h : ∀ y ∈ b, p y)
    (a : List α) : (a ++ b).rdropWhile p = a.rdropWhile p := by
  rw [List.rdropWhile, List.rdropWhile, reverse_append,
    dropWhile_append_of_pos fun c hc => h c (mem_reverse.mp hc)]

theorem trim_between {x u y : JsString} (hx : ∀ c ∈ x, isSpace c = true)
    (hy : ∀ c ∈ y, isSpace c = true) : trim (x ++ (u ++ y)) = trim u := by
  have hstart : trimStart (x ++ (u ++ y)) = trimStart (u ++ y) := dropWhile_append_of_pos hx
  have hend : ∀ v : JsString, trimEnd (v ++ y) = trimEnd v := rdropWhile_append_of_pos hy
  have hall : trimStart y = [] := dropWhile_eq_nil_iff.mpr hy
  rw [trim, hstart, trim, trimStart, dropWhile_append]
  split
  · rename_i hu
    rw [show y.dropWhile isSpace = [] from hall, trimStart, List.isEmpty_iff.mp hu]
  · exact hend _

theorem dropWhile_append_cons {α : Type} {p : α → Bool} {d : α} (hd : ¬p d) (w n : List α) :
    ∃ w', (w ++ d :: n).dropWhile p = w' ++ d :: n := by
  induction w with
  | nil => exact ⟨[], dropWhile_cons_of_neg hd⟩
  | cons e w ih =>
    rw [cons_append]
    by_cases he : p e
    · rw [dropWhile_cons_of_pos he]
      exact ih
    · rw [dropWhile_cons_of_neg he]
      exact ⟨e :: w, rfl⟩

/-- What is cut off is the semicolons, if the text before them does not end in one, and
white space behind no semicolon is gone before. -/
theorem stripSemicolons_append {u n : JsString} (hn : ∀ c ∈ n, c = cu ';')
    (hu : ∀ c, u.getLast? = some c → c ≠ cu ';' ∧ (n = [] → isSpace c = false)) :
    stripSemicolons (u ++ n) = u := by
  induction u with
  | nil =>
    cases n with
    | nil => rfl
    | cons c n =>
      have hrest : n.dropWhile (· == cu ';') = [] := by
        refine dropWhile_eq_nil_iff.mpr fun d hd => ?_
        simpa using hn d (mem_cons_of_mem c hd)
      rw [nil_append, stripSemicolons, if_pos]
      exact ⟨hn c mem_cons_self, by rw [hrest]; rfl⟩
  | cons c u ih =>
    have hlast : ∀ d, u.getLast? = some d → (c :: u).getLast? = some d := fun d hd => by
      rw [getLast?_cons, hd]
      rfl
    rw [cons_append, stripSemicolons, if_neg, ih fun d hd => hu d (hlast d hd)]
    rintro ⟨rfl, hall⟩
    -- the last character before the semicolons is passed over by neither
    cases hu' : u.getLast? with
    | none =>
      rw [getLast?_eq_none_iff.mp hu'] at hu
      exact (hu (cu ';') rfl).1 rfl
    | some d =>
      obtain ⟨hd, hspace⟩ := hu d (hlast d hu')
      obtain ⟨w, rfl⟩ := getLast?_eq_some_iff.mp hu'
      obtain ⟨w', hw'⟩ := dropWhile_append_cons (p := (· == cu ';')) (d := d) (by simpa using hd) w n
      rw [append_assoc, singleton_append, hw', List.all_eq_true] at hall
      cases n with
      | nil =>
        have hd' := hall d (by simp)
        rw [hspace rfl] at hd'
        cases hd'
      | cons e n =>
        have he := hall e (by simp)
        rw [hn e mem_cons_self] at he
        exact absurd he (by decide)

/-- **What the ends lose**: white space, a run of semicolons and white space again. -/
theorem trim_strip {x w y n z : JsString} (hx : ∀ c ∈ x, isSpace c = true)
    (hy : ∀ c ∈ y, isSpace c = true) (hn : ∀ c ∈ n, c = cu ';') (hz : ∀ c ∈ z, isSpace c = true)
    (hhead : ∀ c, w.head? = some c → isSpace c = false)
    (hlast : ∀ c, w.getLast? = some c → isSpace c = false ∧ (c = cu ';' → y ≠ [] ∧ n ≠ [])) :
    trim (stripSemicolons (trim (x ++ (w ++ (y ++ (n ++ z)))))) = w := by
  have hself : trim w = w := trim_eq_self hhead fun c hc => (hlast c hc).1
  by_cases hn0 : n = []
  · subst hn0
    have hyz : ∀ c ∈ y ++ ([] ++ z), isSpace c = true := by
      simpa using fun c hc => hc.elim (hy c) (hz c)
    rw [trim_between hx hyz, hself]
    have hstrip := stripSemicolons_append (u := w) (n := []) (by simp) fun c hc =>
      ⟨fun he => ((hlast c hc).2 he).2 rfl, fun _ => (hlast c hc).1⟩
    rw [append_nil] at hstrip
    rw [hstrip, hself]
  · have hfirst : n.head? = some (cu ';') := by
      obtain ⟨c, n', rfl⟩ := exists_cons_of_ne_nil hn0
      rw [List.head?_cons, hn c mem_cons_self]
    have hnlast : n.getLast? = some (cu ';') := by
      rw [getLast?_eq_some_getLast hn0, hn _ (getLast_mem hn0)]
    by_cases hw0 : w = []
    · subst hw0
      have hxy : ∀ c ∈ x ++ y, isSpace c = true := by
        simpa using fun c hc => hc.elim (hx c) (hy c)
      have htext : x ++ ([] ++ (y ++ (n ++ z))) = (x ++ y) ++ (n ++ z) := by simp
      have hnself : trim n = n := trim_eq_self
        (fun c hc => by rw [← some.inj (hfirst.symm.trans hc)]; decide)
        (fun c hc => by rw [← some.inj (hnlast.symm.trans hc)]; decide)
      rw [htext, trim_between hxy hz, hnself]
      have hstrip := stripSemicolons_append (u := []) hn (by simp)
      rw [nil_append] at hstrip
      rw [hstrip]
      rfl
    · have htext : x ++ (w ++ (y ++ (n ++ z))) = x ++ ((w ++ y ++ n) ++ z) := by simp
      have hwhole : trim (w ++ y ++ n) = w ++ y ++ n := by
        refine trim_eq_self (fun c hc => ?_) (fun c hc => ?_)
        · rw [append_assoc, List.head?_append_of_ne_nil _ hw0] at hc
          exact hhead c hc
        · rw [getLast?_append_of_ne_nil _ hn0, hnlast] at hc
          rw [← some.inj hc]
          decide
      have hstrip : stripSemicolons (w ++ y ++ n) = w ++ y := by
        refine stripSemicolons_append hn fun c hc => ⟨?_, fun he => absurd he hn0⟩
        rintro rfl
        by_cases hy0 : y = []
        · rw [hy0, append_nil] at hc
          exact ((hlast _ hc).2 rfl).1 hy0
        · rw [getLast?_append_of_ne_nil _ hy0] at hc
          exact absurd (hy _ (List.mem_of_getLast? hc)) (by decide)
      rw [htext, trim_between hx hz, hwhole, hstrip]
      have htrim := trim_between (x := []) (u := w) (y := y) (by simp) hy
      rw [nil_append] at htrim
      rw [htrim, hself]

/-! ## The ends of the tokens -/

/-- The tokens less the comments and the white space at their end. -/
def untrailed (ts : List SqlToken) : List SqlToken := ts.rdropWhile fun y => !isSolid y

/-- Less the semicolons there, too. -/
def unclosed (ts : List SqlToken) : List SqlToken := (untrailed ts).rdropWhile isSemicolon

/-- From the first to the last of the others. -/
def core (ts : List SqlToken) : List SqlToken :=
  (untrailed (unclosed ts)).dropWhile fun y => !isSolid y

/-- The tokens of the result are those of the text that are neither comments nor the
semicolons behind it. -/
def Normalized (engine : SqlEngine) (sql : JsString) : Prop :=
  (tokensOf engine (normalizeSql sql)).filter (fun y => y.kind ≠ .blank) =
    ((tokensOf engine sql).filter isSolid).rdropWhile isSemicolon

instance (engine : SqlEngine) (sql : JsString) : Decidable (Normalized engine sql) :=
  inferInstanceAs (Decidable (_ = _))

/-- The statement begins and ends where white space does, and its last token is not one of
the semicolons and does not touch them with one of its own. -/
structure EndsClear (ts : List SqlToken) : Prop where
  first : ∀ y ∈ (core ts).head?, ∀ c ∈ y.text.head?, isSpace c = false
  last : ∀ y ∈ (core ts).getLast?, isSemicolon y = false ∧ ∀ c ∈ y.text.getLast?,
    isSpace c = false ∧
      (c = cu ';' → untrailed (unclosed ts) ≠ unclosed ts ∧ unclosed ts ≠ untrailed ts)

/-- What the patterns and the ends of the text show is what the client reads. -/
structure Follows (engine : SqlEngine) (sql : JsString) : Prop where
  seen : AllSeen (tokensOf engine sql)
  /-- No comment stands between two parts of one string. -/
  apart : engine = .postgres →
    read (transparent Psql.next isComment) Psql.start sql = Psql.tokens Psql.start sql
  ends : EndsClear (tokensOf engine sql)

/-- The tokens around those that stay. -/
theorem exists_parts (ts : List SqlToken) : ∃ lead gap closing trail : List SqlToken,
    ts = lead ++ (core ts ++ (gap ++ (closing ++ trail))) ∧ (∀ y ∈ lead, isSolid y = false) ∧
      (∀ y ∈ gap, isSolid y = false) ∧ (∀ y ∈ closing, isSemicolon y = true) ∧
      (∀ y ∈ trail, isSolid y = false) ∧
      (gap = [] → untrailed (unclosed ts) = unclosed ts) ∧
      (closing = [] → unclosed ts = untrailed ts) := by
  have htrail : untrailed ts ++ ts.rtakeWhile (fun y => !isSolid y) = ts :=
    rdropWhile_append_rtakeWhile
  have hclosing : unclosed ts ++ (untrailed ts).rtakeWhile isSemicolon = untrailed ts :=
    rdropWhile_append_rtakeWhile
  have hgap : untrailed (unclosed ts) ++ (unclosed ts).rtakeWhile (fun y => !isSolid y) =
      unclosed ts := rdropWhile_append_rtakeWhile
  have hlead : (untrailed (unclosed ts)).takeWhile (fun y => !isSolid y) ++ core ts =
      untrailed (unclosed ts) := takeWhile_append_dropWhile
  refine ⟨(untrailed (unclosed ts)).takeWhile fun y => !isSolid y,
    (unclosed ts).rtakeWhile fun y => !isSolid y, (untrailed ts).rtakeWhile isSemicolon,
    ts.rtakeWhile fun y => !isSolid y, ?_, fun y hy => ?_, fun y hy => ?_,
    fun y hy => mem_rtakeWhile_imp hy, fun y hy => ?_, fun hnil => ?_, fun hnil => ?_⟩
  · rw [← append_assoc, hlead, ← append_assoc, hgap, ← append_assoc, hclosing, htrail]
  · have hnot := mem_takeWhile_imp hy
    simpa using hnot
  · have hnot := mem_rtakeWhile_imp hy
    simpa using hnot
  · have hnot := mem_rtakeWhile_imp hy
    simpa using hnot
  · rwa [hnil, append_nil] at hgap
  · rwa [hnil, append_nil] at hclosing

variable {y : SqlToken} {ts : List SqlToken}

theorem isSolid_of_head (h : (core ts).head? = some y) : isSolid y = true := by
  have hnot := List.head?_dropWhile_not (fun y => !isSolid y) (untrailed (unclosed ts))
  rw [show (untrailed (unclosed ts)).dropWhile (fun y => !isSolid y) = core ts from rfl, h] at hnot
  simpa using hnot

theorem isSolid_of_last (h : (core ts).getLast? = some y) : isSolid y = true := by
  obtain ⟨w, hw⟩ := getLast?_eq_some_iff.mp h
  have hsuffix : w ++ [y] <:+ untrailed (unclosed ts) := hw ▸ dropWhile_suffix _
  obtain ⟨v, hv⟩ := hsuffix
  have hne : untrailed (unclosed ts) ≠ [] := by
    rw [← hv]
    simp
  have hnot := rdropWhile_last_not (fun y => !isSolid y) (unclosed ts) hne
  have hlast : (untrailed (unclosed ts)).getLast hne = y := by
    apply some.inj
    rw [← getLast?_eq_some_getLast hne, ← hv]
    simp
  have hnot' : ¬(!isSolid ((untrailed (unclosed ts)).getLast hne)) = true := hnot
  rw [hlast] at hnot'
  simpa using hnot'

/-! ## What is left -/

theorem bare_append (a b : List SqlToken) : bare (a ++ b) = bare a ++ bare b := flatMap_append

theorem isSpace_of_isBlank {c : CodeUnit} (h : isBlank c = true) : isSpace c = true := by
  rw [isBlank] at h
  simp only [isSpace, h, Bool.true_or]

/-- The tokens are as a reading gives them. -/
structure Regular (ts : List SqlToken) : Prop where
  ne_nil : ∀ y ∈ ts, y.text ≠ []
  blank : ∀ y ∈ ts, y.kind = .blank → ∀ c ∈ y.text, isBlank c = true

theorem Regular.of_subset {a b : List SqlToken} (h : Regular b) (hab : a ⊆ b) : Regular a :=
  ⟨fun y hy => h.ne_nil y (hab hy), fun y hy => h.blank y (hab hy)⟩

theorem bare_solid (h : isSolid y = true) (ys : List SqlToken) :
    bare (y :: ys) = y.text ++ bare ys := by
  rw [bare_cons, if_neg]
  rintro hkind
  simp [isSolid, hkind] at h

theorem bare_spaces (hts : Regular ts) (h : ∀ y ∈ ts, isSolid y = false) :
    ∀ c ∈ bare ts, isSpace c = true := by
  intro c hc
  obtain ⟨y, hy, hcy⟩ := mem_flatMap.mp hc
  split at hcy
  · obtain rfl : c = cu ' ' := mem_singleton.mp hcy
    decide
  · rename_i hkind
    have hblank : y.kind = .blank := by
      have hsolid := h y hy
      simp only [isSolid, ne_eq, decide_not, and_eq_false_iff, not_eq_false',
        decide_eq_true_eq] at hsolid
      exact hsolid.resolve_right hkind
    exact isSpace_of_isBlank (hts.blank y hy hblank c hcy)

theorem bare_semicolons (h : ∀ y ∈ ts, isSemicolon y = true) : ∀ c ∈ bare ts, c = cu ';' := by
  intro c hc
  obtain ⟨y, hy, hcy⟩ := mem_flatMap.mp hc
  have hsemi := h y hy
  rw [isSemicolon, and_eq_true, decide_eq_true_eq] at hsemi
  split at hcy
  · rename_i hkind
    simp [isSolid, hkind] at hsemi
  · rw [hsemi.2] at hcy
    exact mem_singleton.mp hcy

theorem bare_ne_nil (hts : Regular ts) (h : ts ≠ []) : bare ts ≠ [] := by
  obtain ⟨y, ys, rfl⟩ := exists_cons_of_ne_nil h
  rw [bare_cons]
  intro hnil
  have hfirst := (append_eq_nil_iff.mp hnil).1
  split at hfirst
  · cases hfirst
  · exact hts.ne_nil y mem_cons_self hfirst

/-- **The result is the text between the ends, with a blank for every comment.** -/
theorem normalizeSql_eq (hts : Regular ts) (hseen : AllSeen ts)
    (hends : EndsClear ts) : normalizeSql (text ts) = bare (core ts) := by
  obtain ⟨lead, gap, closing, trail, hparts, hlead, hgap, hclosing, htrail, hgap0, hclosing0⟩ :=
    exists_parts ts
  have hsub : ∀ a ⊆ ts, Regular a := fun a ha => hts.of_subset ha
  have hcoreSub : core ts ⊆ ts := by
    intro y hy
    rw [hparts]
    simp [hy]
  have hcore := hsub (core ts) hcoreSub
  have hleadR := hsub lead (by intro y hy; rw [hparts]; simp [hy])
  have hgapR := hsub gap (by intro y hy; rw [hparts]; simp [hy])
  have hclosingR := hsub closing (by intro y hy; rw [hparts]; simp [hy])
  have htrailR := hsub trail (by intro y hy; rw [hparts]; simp [hy])
  have hbare : bare ts =
      bare lead ++ (bare (core ts) ++ (bare gap ++ (bare closing ++ bare trail))) := by
    conv_lhs => rw [hparts]
    simp only [bare_append]
  rw [normalizeSql_replaced, replaced_eq hts.ne_nil hseen, hbare]
  refine trim_strip (bare_spaces hleadR hlead) (bare_spaces hgapR hgap)
    (bare_semicolons hclosing) (bare_spaces htrailR htrail) (fun c hc => ?_) (fun c hc => ?_)
  · cases hhead : (core ts).head? with
    | none =>
      rw [List.head?_eq_none_iff.mp hhead] at hc
      cases hc
    | some y =>
      obtain ⟨ys, hys⟩ := List.head?_eq_some_iff.mp hhead
      have hne := hcore.ne_nil y (List.mem_of_head? hhead)
      rw [hys, bare_solid (isSolid_of_head hhead), List.head?_append_of_ne_nil _ hne] at hc
      exact hends.first y hhead c hc
  · cases hlast : (core ts).getLast? with
    | none =>
      rw [getLast?_eq_none_iff.mp hlast] at hc
      cases hc
    | some y =>
      obtain ⟨ys, hys⟩ := getLast?_eq_some_iff.mp hlast
      have hne := hcore.ne_nil y (List.mem_of_getLast? hlast)
      rw [hys, bare_append, bare_solid (isSolid_of_last hlast),
        getLast?_append_of_ne_nil _ (by simpa using fun h => absurd h hne)] at hc
      have hc' : y.text.getLast? = some c := by simpa [bare] using hc
      obtain ⟨hspace, hsemi⟩ := (hends.last y hlast).2 c hc'
      refine ⟨hspace, fun he => ?_⟩
      obtain ⟨h₁, h₂⟩ := hsemi he
      exact ⟨bare_ne_nil hgapR fun hnil => h₁ (hgap0 hnil),
        bare_ne_nil hclosingR fun hnil => h₂ (hclosing0 hnil)⟩

/-! ## Reading the result -/

theorem stops_of_idle (hts : Regular ts) (hseen : AllSeen ts)
    (h : ∀ y ∈ ts, isSolid y = false ∨ isSemicolon y = true) : EndsToken (text ts) := by
  cases ts with
  | nil => exact fun d hd => by cases hd
  | cons y ts =>
    intro d hd
    have hne := hts.ne_nil y mem_cons_self
    rw [text_cons, List.head?_append_of_ne_nil _ hne] at hd
    rcases h y mem_cons_self with hsolid | hsemi
    · by_cases hkind : y.kind = .comment
      · rcases head_of_seen hne hkind hseen.1 with hhead | hhead <;>
          obtain rfl := some.inj (hhead.symm.trans hd)
        · exact .inr (.inl rfl)
        · exact .inr (.inr (.inl rfl))
      · have hblank : y.kind = .blank := by simpa [isSolid, hkind] using hsolid
        exact .inl (hts.blank y mem_cons_self hblank d (List.mem_of_head? hd))
    · rw [isSemicolon, and_eq_true, decide_eq_true_eq] at hsemi
      rw [hsemi.2] at hd
      exact .inr (.inr (.inr (some.inj hd).symm))

section Reading
variable {σ : Type} {L : Lexer CodeUnit σ SqlKind} {start : σ}

theorem regular_read (hL : Dialect L start) (s : σ) (t : JsString) :
    Regular (read (transparent L isComment) s t) := by
  refine ⟨text_ne_nil _, ?_⟩
  induction s, t using read_induction (transparent L isComment) with
  | nil s => simp
  | cons s c cs ih =>
    rw [read_cons]
    intro y hy hkind
    rcases mem_cons.mp hy with rfl | hy
    · rw [transparent_kind] at hkind
      obtain ⟨hblank, hmore, -⟩ := hL.blank s c cs cs hkind
      rw [transparent_more, hmore]
      intro d hd
      obtain rfl : d = c := mem_singleton.mp hd
      exact hblank
    · exact ih y hy hkind

/-- Blanks and comments leave the lexer at its start. -/
theorem read_behind_lead (hL : Dialect L start) {lead : List SqlToken} {t : JsString}
    (hread : read (transparent L isComment) start t = lead ++ ts)
    (hlead : ∀ y ∈ lead, isSolid y = false) :
    ∃ t', read (transparent L isComment) start t' = ts := by
  induction lead generalizing t with
  | nil => exact ⟨t, hread⟩
  | cons y lead ih =>
    obtain ⟨c, cs, rfl, hy, hts⟩ := read_eq_cons hread
    have hsolid := hlead y mem_cons_self
    rw [hy, transparent_kind] at hsolid
    have hnext : (transparent L isComment start c cs).next = start := by
      by_cases hcomment : (L start c cs).kind = .comment
      · exact transparent_next (decide_eq_true hcomment)
      · have hblank : (L start c cs).kind = .blank := by simpa [isSolid, hcomment] using hsolid
        have hp : isComment (L start c cs).kind = false := decide_eq_false hcomment
        rw [transparent_of_false hp]
        exact hL.idle c cs hblank
    rw [hnext] at hts
    exact ih hts.symm fun z hz => hlead z (mem_cons_of_mem y hz)

theorem rdropWhile_solid (hends : EndsClear ts) :
    (ts.filter isSolid).rdropWhile isSemicolon = (core ts).filter isSolid := by
  obtain ⟨lead, gap, closing, trail, hparts, hlead, hgap, hclosing, htrail, -, -⟩ := exists_parts ts
  have hnone : ∀ a : List SqlToken, (∀ y ∈ a, isSolid y = false) → a.filter isSolid = [] :=
    fun a ha => filter_eq_nil_iff.mpr fun y hy => by simp [ha y hy]
  have hall : closing.filter isSolid = closing := by
    refine filter_eq_self.mpr fun y hy => ?_
    have hsemi := hclosing y hy
    rw [isSemicolon, and_eq_true] at hsemi
    exact hsemi.1
  have hfilter : ts.filter isSolid = (core ts).filter isSolid ++ closing := by
    conv_lhs => rw [hparts]
    simp only [filter_append, hnone lead hlead, hnone gap hgap, hnone trail htrail, hall,
      nil_append, append_nil]
  rw [hfilter, rdropWhile_append_of_pos hclosing]
  cases hlast : (core ts).getLast? with
  | none =>
    rw [getLast?_eq_none_iff.mp hlast]
    rfl
  | some y =>
    obtain ⟨ys, hys⟩ := getLast?_eq_some_iff.mp hlast
    rw [hys, filter_append, filter_singleton, isSolid_of_last hlast, cond_true,
      rdropWhile_concat_neg]
    rw [(hends.last y hlast).1]
    decide

/-- **The result is read as the text was.** -/
theorem read_normalizeSql (hL : Dialect L start) {sql : JsString}
    (hread : read (transparent L isComment) start sql = ts) (hseen : AllSeen ts)
    (hends : EndsClear ts) :
    (read L start (normalizeSql sql)).filter (fun y => y.kind ≠ .blank) =
      (ts.filter isSolid).rdropWhile isSemicolon := by
  have hregular : Regular ts := hread ▸ regular_read hL start sql
  have hsql : sql = text ts := by rw [← hread, text_read]
  obtain ⟨lead, gap, closing, trail, hparts, hlead, hgap, hclosing, htrail, -, -⟩ := exists_parts ts
  obtain ⟨t', ht'⟩ := read_behind_lead hL (hread.trans hparts) hlead
  have hrest : ∀ y ∈ gap ++ (closing ++ trail), isSolid y = false ∨ isSemicolon y = true := by
    intro y hy
    rcases mem_append.mp hy with hy | hy
    · exact .inl (hgap y hy)
    · exact (mem_append.mp hy).symm.imp (htrail y) (hclosing y)
  have hcore : AllSeen (core ts ++ (gap ++ (closing ++ trail))) :=
    AllSeen.behind (a := lead) (hparts ▸ hseen)
  have hstops : EndsToken (text (gap ++ (closing ++ trail))) := by
    refine stops_of_idle (hregular.of_subset fun y hy => ?_) hcore.behind hrest
    rw [hparts]
    exact mem_append_right _ (mem_append_right _ hy)
  have hbare := read_bare hL ht' hcore hstops
  rw [hsql, normalizeSql_eq hregular hseen hends, rdropWhile_solid hends, ← hbare,
    read_of_read_transparent fun y hy => ?_]
  -- no comment is left
  by_contra hcomment
  have hkind : y.kind = .comment := by simpa [isComment] using hcomment
  have hmem : y ∈ (core ts).filter isSolid := by
    rw [← hbare]
    exact mem_filter.mpr ⟨hy, by simp [hkind]⟩
  have hsolid := (mem_filter.mp hmem).2
  simp [isSolid, hkind] at hsolid

end Reading

/-- **Where the patterns follow the client, nothing but comments, white space and closing
semicolons is lost.** -/
theorem normalized_of_follows {engine : SqlEngine} {sql : JsString} (h : Follows engine sql) :
    Normalized engine sql := by
  obtain ⟨hseen, hapart, hends⟩ := h
  rw [Normalized]
  unfold tokensOf at hseen hends ⊢
  split
  · rename_i hengine
    rw [if_pos hengine] at hseen hends
    exact read_normalizeSql Psql.dialect (hapart hengine) hseen hends
  · rename_i hengine
    rw [if_neg hengine] at hseen hends
    refine read_normalizeSql MySql.dialect ?_ hseen hends
    rw [transparent_eq_self]
    rfl

theorem normalized_of_follows_trailed :
    normalizeSql (js "  SELECT 1 /* '--' */, 'a''b' -- /* c */\n ; ") =
        js "SELECT 1  , 'a''b'" ∧
      Normalized .mysql (js "  SELECT 1 /* '--' */, 'a''b' -- /* c */\n ; ") :=
  ⟨by decide, normalized_of_follows ⟨by decide, fun h => (by cases h), ⟨by decide, by decide⟩⟩⟩

/-- **What a literal or a name contains is never kept** if it looks like a comment. -/
theorem not_normalized_of_mem {engine : SqlEngine} {sql : JsString}
    (hy : y ∈ ((tokensOf engine sql).filter isSolid).rdropWhile isSemicolon)
    (h : js "--" <:+: y.text ∨ Replacing.Behind (js "/*") (js "*/") y.text) :
    ¬ Normalized engine sql := by
  intro hnormal
  rw [Normalized] at hnormal
  rw [← hnormal] at hy
  have hmem : y ∈ tokensOf engine (normalizeSql sql) := (mem_filter.mp hy).1
  have htext : text (tokensOf engine (normalizeSql sql)) = normalizeSql sql := by
    unfold tokensOf
    split <;> exact text_read _ _ _
  have hinfix : y.text <:+: normalizeSql sql := by
    obtain ⟨a, b, hab⟩ := append_of_mem hmem
    rw [← htext, hab, text_append, text_cons]
    exact ⟨text a, text b, by simp⟩
  rcases h with hdash | hblock
  · exact not_dashes_normalizeSql sql (hdash.trans hinfix)
  · exact not_behind_normalizeSql sql (hblock.mono hinfix)

theorem dashes_not_normalized : ¬ Normalized .mysql (js "SELECT '--x'") :=
  not_normalized_of_mem (y := ⟨.string, js "'--x'"⟩) (by decide) (.inl (by decide))

theorem comment_in_literal :
    normalizeSql (js "SELECT '--x'") = js "SELECT '" ∧
      ∀ engine, ¬ Normalized engine (js "SELECT '--x'") := by
  refine ⟨by decide, fun engine => ?_⟩
  cases engine <;> decide

end Aoox.NormalizedSql
