import Aoox.QueryGuard
import Aoox.SqlLexers

/-! # One statement at a time

What the query box hands to a client is meant to be one statement, because the
read-only session of a member is only a setting that a second statement could
undo.  The guard and the client read the text by different rules, and the guard's
are the simpler ones: it knows quotes and doubled quotes, and neither backslash
escapes, dollar quotes and comments nor any terminator besides the semicolon.

A terminator is *unseen* when it is not a semicolon that the guard finds outside
its quotes.  The guard has let the text through, so every terminator the client
finds is unseen, and the text is one statement exactly when nothing but blanks,
comments and terminators stands behind an unseen one
(`sqlStatements_length_eq_one_iff`).  On text without the characters the guard
does not know, the two readings keep step and there are no unseen terminators.
-/
open List Bool
namespace Aoox
open JsString Lexing

/-- The token, read behind the text `before`, ends a statement, and is not a
semicolon that the guard takes to be outside quotes. -/
def Unseen (before : JsString) (y : SqlToken) : Prop :=
  y.isTerminator ∧ ¬ (y.text = js ";" ∧ quoteAfter before = none)

instance (before : JsString) (y : SqlToken) : Decidable (Unseen before y) :=
  inferInstanceAs (Decidable (_ ∧ _))

def IdleBehindUnseen (ts : List SqlToken) : Prop :=
  ∀ a y b, ts = a ++ y :: b → Unseen (text a) y → ∀ z ∈ b, z.isContent = false

/-- The statement `runQuery` makes of an input: `withRowCap` normalizes once
more. -/
def statementOf (input : JsString) : JsString := normalizeSql (normalizeSql input)

/-- What `withRowCap` puts behind a statement. -/
def closingOf (engine : SqlEngine) (s : JsString) : JsString :=
  if needsCap s then capClosing engine else []

/-! ## What the guard has seen -/

theorem isReadStatement_eq (input : JsString) : isReadStatement (normalizeSql input) =
    readKeywords.contains (firstWord (statementOf input)) := rfl

theorem withRowCap_eq (input : JsString) (engine : SqlEngine) :
    withRowCap (normalizeSql input) engine =
      (if needsCap (statementOf input) then capOpening else []) ++
        (statementOf input ++ closingOf engine (statementOf input)) := by
  rw [withRowCap, closingOf, statementOf]
  cases needsCap (normalizeSql (normalizeSql input)) <;> simp

variable {engine : SqlEngine} {call : SqlCall}

variable {input role : JsString} {database : Option JsString}

/-- What somebody who may not write has got through: a reading statement in which
the guard has found no semicolon outside quotes. -/
theorem runQuery_ok (hrole : role ∉ writeRoles)
    (h : runQuery engine input role database = .ok call) :
    hasMultipleStatements (normalizeSql input) = false ∧
      readKeywords.contains (firstWord (statementOf input)) = true ∧
      call.statement = withRowCap (normalizeSql input) engine := by
  have hwrite : writeRoles.contains role = false := by simpa using hrole
  rw [runQuery] at h
  split_ifs at h with hempty hmultiple hread
  rw [hwrite] at hread
  have hreads : isReadStatement (normalizeSql input) = true := by simpa using hread
  exact ⟨by simpa using hmultiple, isReadStatement_eq input ▸ hreads, by rw [← Except.ok.inj h]⟩

theorem semicolon_not_mem_closingOf (engine : SqlEngine) (s : JsString) :
    cu ';' ∉ closingOf engine s := by
  rw [closingOf]
  split
  · cases engine <;> decide
  · exact not_mem_nil

/-- A semicolon in what is handed on stands inside the guard's quotes. -/
theorem quoteAfter_ne_none (engine : SqlEngine)
    (hguard : hasMultipleStatements (normalizeSql input) = false) {a b : JsString}
    (h : statementOf input ++ closingOf engine (statementOf input) = a ++ cu ';' :: b) :
    quoteAfter a ≠ none := by
  intro hnone
  have htail := semicolon_not_mem_closingOf engine (statementOf input)
  obtain ⟨r, hr⟩ := isPrefix_normalizeSql_twice input
  have hseen : ∃ w, statementOf input = a ++ cu ';' :: w := by
    rcases append_eq_append_iff.mp h with ⟨w, -, hw⟩ | ⟨w, ha, hw⟩
    · exact absurd (by simp [hw]) htail
    · cases w with
      | nil =>
        rw [nil_append] at hw
        exact absurd (by rw [← hw]; exact mem_cons_self) htail
      | cons x w =>
        obtain ⟨rfl, -⟩ := List.cons.inj hw
        exact ⟨w, ha⟩
  obtain ⟨w, hw⟩ := hseen
  have hmultiple : hasMultipleStatements (normalizeSql input) = true :=
    (hasMultipleStatements_iff _).mpr ⟨a, w ++ r, by
      rw [← hr, show normalizeSql (normalizeSql input) = a ++ cu ';' :: w from hw]
      simp, hnone⟩
  rw [hguard] at hmultiple
  cases hmultiple

/-- **One statement, for any client.**  The tokens `ts` are those of the text the
guard has let through, read behind tokens without a terminator. -/
theorem sqlStatements_length_eq_one_iff {all pre ts : List SqlToken} (hall : all = pre ++ ts)
    (hpre : ∀ y ∈ pre, y.isTerminator = false)
    (hfirst : ∃ x rest, all = x :: rest ∧ x.isContent)
    (hguard : ∀ a b, text ts = a ++ cu ';' :: b → quoteAfter a ≠ none) :
    (sqlStatements all).length = 1 ↔ IdleBehindUnseen ts := by
  obtain ⟨x, rest, hx, hcontent⟩ := hfirst
  rw [hx, sqlStatements,
    statements_length_eq_one_iff SqlToken.not_isContent_of_isTerminator hcontent, ← hx, hall]
  constructor
  · intro h a y b hts hunseen
    exact h (pre ++ a) y b (by rw [hts, append_assoc]) hunseen.1
  · intro h a y b heq hy z hz
    have hsplit : ∃ w, ts = w ++ y :: b := by
      rcases append_eq_append_iff.mp heq with ⟨w, -, hw⟩ | ⟨w, hp, hw⟩
      · exact ⟨w, hw⟩
      · cases w with
        | nil => exact ⟨[], hw.symm⟩
        | cons v w =>
          obtain ⟨rfl, -⟩ := List.cons.inj hw
          exact absurd hy (by simp [hpre y (by simp [hp])])
    obtain ⟨w, hw⟩ := hsplit
    have hunseen : Unseen (text w) y := by
      refine ⟨hy, fun hsemi => hguard (text w) (text b) ?_ hsemi.2⟩
      rw [hw, text_append, text_cons, hsemi.1]
      rfl
    exact h w y b hw hunseen z hz

/-! ## Reading what is handed on -/

variable {c : CodeUnit}

theorem beq_eq_false_of_isLetter (h : isLetter c) (d : CodeUnit)
    (hd : isLetter d = false) : (c == d) = false := by
  rw [beq_eq_false_iff_ne]
  rintro rfl
  rw [hd] at h
  cases h

theorem isBlank_eq_false_of_isLetter (h : isLetter c) : isBlank c = false := by
  rw [← not_eq_true]
  intro hb
  simp only [isBlank, isLetter, or_eq_true, and_eq_true, decide_eq_true_eq, beq_iff_eq,
    ← UInt16.toNat_inj, UInt16.le_iff_toNat_le, UInt16.reduceToNat, cu, Char.reduceToNat,
    Nat.toUInt16_eq, UInt16.reduceOfNat] at h hb
  omega

/-- The tokens of `SELECT * FROM (`. -/
def capTokens : List SqlToken :=
  [⟨.word, js "SELECT"⟩, ⟨.blank, js " "⟩, ⟨.symbol, js "*"⟩, ⟨.blank, js " "⟩,
    ⟨.word, js "FROM"⟩, ⟨.blank, js " "⟩, ⟨.symbol, js "("⟩]

section Handed
variable {σ : Type} {L : Lexer CodeUnit σ SqlKind} {s₀ s₁ : σ}

/-- The state in which the client comes to the statement, which is `s₁` behind
the opening of the row cap. -/
def stateBefore (s₀ s₁ : σ) (s : JsString) : σ := if needsCap s then s₁ else s₀

/-- The tokens of what is handed on: those of the row cap's opening, if there is
one, and those of the rest. -/
theorem read_withRowCap (hopen : ∀ t, read L s₀ (capOpening ++ t) = capTokens ++ read L s₁ t)
    (input : JsString) (engine : SqlEngine) :
    read L s₀ (withRowCap (normalizeSql input) engine) =
      (if needsCap (statementOf input) then capTokens else []) ++
        read L (stateBefore s₀ s₁ (statementOf input))
          (statementOf input ++ closingOf engine (statementOf input)) := by
  rw [withRowCap_eq, stateBefore]
  cases needsCap (statementOf input) with
  | true => rw [if_pos rfl, if_pos rfl, if_pos rfl, hopen]
  | false => rw [if_neg Bool.false_ne_true, if_neg Bool.false_ne_true,
      if_neg Bool.false_ne_true, nil_append, nil_append]

theorem capTokens_spec (b : Bool) : ∀ y ∈ (if b then capTokens else []),
    y.isTerminator = false ∧ y.kind ≠ .command := by
  cases b <;> decide

/-- **One statement, as a client reads what is handed on.** -/
theorem handed_one_iff (hopen : ∀ t, read L s₀ (capOpening ++ t) = capTokens ++ read L s₁ t)
    (hletter : ∀ c cs, isLetter c → SqlToken.isContent ⟨(L s₀ c cs).kind, []⟩)
    (hrole : role ∉ writeRoles) (h : runQuery engine input role database = .ok call) :
    (sqlStatements (read L s₀ call.statement)).length = 1 ↔
      IdleBehindUnseen (read L (stateBefore s₀ s₁ (statementOf input))
        (statementOf input ++ closingOf engine (statementOf input))) := by
  obtain ⟨hguard, hread, hcall⟩ := runQuery_ok hrole h
  rw [hcall]
  refine sqlStatements_length_eq_one_iff (read_withRowCap hopen input engine)
    (fun y hy => (capTokens_spec _ y hy).1) ?_ (fun a b hab => ?_)
  · -- Capped, the text begins with `SELECT`; otherwise with the keyword.
    rw [read_withRowCap hopen, stateBefore]
    cases needsCap (statementOf input) with
    | true => exact ⟨_, _, rfl, by decide⟩
    | false =>
      obtain ⟨c, cs, hs, hc⟩ := head_of_read hread
      rw [hs, if_neg Bool.false_ne_true, if_neg Bool.false_ne_true, nil_append,
        cons_append, read_cons]
      exact ⟨_, _, rfl, hletter c _ hc⟩
  · rw [text_read] at hab
    exact quoteAfter_ne_none engine hguard hab

end Handed

/-! ## MySQL and MariaDB -/

namespace MySql

theorem tokens_capOpening (t : JsString) : tokens (capOpening ++ t) = capTokens ++ tokens t := rfl

theorem next_of_isLetter (h : isLetter c) (cs : JsString) :
    next () c cs = ⟨.word, wordLength c cs, ()⟩ := by
  have hne := beq_eq_false_of_isLetter h
  simp [next, isBlank_eq_false_of_isLetter h, hne (cu '\'') rfl, hne (cu '"') rfl,
    hne (cu '\x60') rfl, hne (cu '#') rfl, hne (cu '-') rfl, hne (cu '/') rfl, hne (cu ';') rfl,
    hne (cu '\\') rfl, isIdentStart, h]

/-- **What the `mysql` or `mariadb` client is handed is one statement exactly when
nothing but blanks, comments and terminators stands behind a terminator that the
guard does not see.** -/
theorem oneStatement_iff {engine : SqlEngine} {input role : JsString}
    {database : Option JsString} {call : SqlCall} (hrole : role ∉ writeRoles)
    (h : runQuery engine input role database = .ok call) :
    OneStatement call.statement ↔
      IdleBehindUnseen (tokens (statementOf input ++ closingOf engine (statementOf input))) := by
  have hletter : ∀ c cs, isLetter c → SqlToken.isContent ⟨(next () c cs).kind, []⟩ := by
    intro c cs hc
    rw [next_of_isLetter hc]
    rfl
  have hone := handed_one_iff tokens_capOpening hletter hrole h
  rw [Subsingleton.elim (stateBefore () () (statementOf input)) ()] at hone
  exact hone

def quotedSemicolon : JsString := js "show tables like ';';"

theorem idle_quotedSemicolon :
    IdleBehindUnseen (tokens (statementOf quotedSemicolon ++
      closingOf .mysql (statementOf quotedSemicolon))) := by
  have hrun : runQuery .mysql quotedSemicolon (js "member") none =
      .ok ⟨js "show tables like ';'", true, none⟩ := by decide
  exact (oneStatement_iff (by decide) hrun).mp (by decide)

/-- The client takes `\'` for a quote inside the string, and the next quote closes
it; the guard takes the two quotes for a doubled one and the semicolon for quoted. -/
theorem two_statements_handed :
    js "member" ∉ writeRoles ∧ ∃ call,
      runQuery .mysql (js "show tables like '\\''; set session transaction read write")
        (js "member") none = .ok call ∧ ¬ OneStatement call.statement :=
  ⟨by decide,
    ⟨js "show tables like '\\''; set session transaction read write", true, none⟩,
    by decide, by decide⟩

/-! The statement does not stand alone in the client's file: the session settings
come first, and the client is through with them when it gets to the statement. -/

/-- `SET SESSION max_… = …;`. -/
def timeoutTokens (engine : SqlEngine) : List SqlToken :=
  let (setting, value) :=
    if engine = .mariadb then (js "max_statement_time", js "15")
    else (js "max_execution_time", js "15000")
  [⟨.word, js "SET"⟩, ⟨.blank, js " "⟩, ⟨.word, js "SESSION"⟩, ⟨.blank, js " "⟩,
    ⟨.word, setting⟩, ⟨.blank, js " "⟩, ⟨.symbol, js "="⟩, ⟨.blank, js " "⟩, ⟨.word, value⟩]

/-- ` SET SESSION TRANSACTION READ ONLY`. -/
def readOnlyTokens : List SqlToken :=
  [⟨.blank, js " "⟩, ⟨.word, js "SET"⟩, ⟨.blank, js " "⟩, ⟨.word, js "SESSION"⟩,
    ⟨.blank, js " "⟩, ⟨.word, js "TRANSACTION"⟩, ⟨.blank, js " "⟩, ⟨.word, js "READ"⟩,
    ⟨.blank, js " "⟩, ⟨.word, js "ONLY"⟩]

theorem tokens_queryFile (hengine : engine ≠ .postgres) (hcall : call.readOnly) :
    tokens (queryFile engine call) =
      timeoutTokens engine ++ ⟨.terminator, js ";"⟩ :: (readOnlyTokens ++
        ⟨.terminator, js ";"⟩ :: ⟨.blank, js "\n"⟩ :: tokens call.statement) := by
  cases engine with
  | postgres => exact absurd rfl hengine
  | mysql =>
    rw [queryFile, hcall]
    rfl
  | mariadb =>
    rw [queryFile, hcall]
    rfl

end MySql

/-! ## PostgreSQL -/

namespace Psql

/-- Behind `SELECT * FROM (` one parenthesis is open. -/
theorem tokens_capOpening (t : JsString) :
    tokens start (capOpening ++ t) = capTokens ++ tokens ⟨1, .no⟩ t :=
  rfl

theorem next_of_isLetter (h : isLetter c) (s : State) (cs : JsString) :
    (next s c cs).kind = .word ∨ (next s c cs).kind = .string := by
  have hne := beq_eq_false_of_isLetter h
  simp only [next, isBlank_eq_false_of_isLetter h, hne (cu '\'') rfl, hne (cu '"') rfl,
    hne (cu '$') rfl, hne (cu '-') rfl, hne (cu '/') rfl, hne (cu ';') rfl,
    hne (cu '\\') rfl, hne (cu '(') rfl, hne (cu ')') rfl, isIdentStart, h, Bool.false_and,
    Bool.true_or, false_eq_true, if_false, if_true]
  split
  · exact Or.inr rfl
  · exact Or.inl rfl

/-- The state in which `psql` comes to the statement. -/
def before (s : JsString) : State := stateBefore start ⟨1, .no⟩ s

/-- Outside quotes and comments a backslash stands before a semicolon or a colon
only. -/
def BackslashesTame (ts : List SqlToken) : Prop :=
  ∀ y ∈ ts, y.text.head? = some (cu '\\') → y.text = js "\\;" ∨ y.text = js "\\:"

/-- A lexeme is a command exactly when it is a backslash that is not tame. -/
theorem kind_ne_command_iff (s : State) (c : CodeUnit) (cs : JsString) :
    (next s c cs).kind ≠ .command ↔
      (c = cu '\\' → c :: cs.take (next s c cs).more = js "\\;" ∨
        c :: cs.take (next s c cs).more = js "\\:") := by
  -- Every other kind starts with another character.
  have hother : ∀ (p : CodeUnit → Prop) (k : SqlKind) (n : Nat), k ≠ .command → p c →
      ¬ p (cu '\\') → (k ≠ .command ↔
        (c = cu '\\' → c :: cs.take n = js "\\;" ∨ c :: cs.take n = js "\\:")) := by
    intro p k n hk hc hp
    exact iff_of_true hk fun h => absurd (h ▸ hc) hp
  have hhead : ∀ d, cs.head? = some d → cs.take 1 = [d] := by
    intro d hd
    obtain ⟨ds, rfl⟩ := List.head?_eq_some_iff.mp hd
    rfl
  apply next_rule (P := fun k n => k ≠ .command ↔
    (c = cu '\\' → c :: cs.take n = js "\\;" ∨ c :: cs.take n = js "\\:")) s c cs
  case blank => exact fun h => hother (isBlank · = true) _ _ (by decide) h (by decide)
  case comment =>
    intro n h
    refine hother (fun c => js "--" <+: c :: cs ∨ js "/*" <+: c :: cs) _ _ (by decide) h ?_
    rintro (h | h) <;> exact absurd (cons_prefix_cons.mp h).1 (by decide)
  case string => exact fun _ h => hother (· = cu '\'') _ _ (by decide) h (by decide)
  case escape =>
    exact fun h _ => hother (fun c => c = cu 'e' ∨ c = cu 'E') _ _ (by decide) h (by decide)
  case name => exact fun h => hother (· = cu '"') _ _ (by decide) h (by decide)
  case dollar => exact fun k n hk h => hother (· = cu '$') k n hk h (by decide)
  case separator =>
    intro h hs
    refine iff_of_true (by decide) fun _ => Or.inl ?_
    rw [hhead _ hs, h]
    rfl
  case colon =>
    intro h hs
    refine iff_of_true (by decide) fun _ => Or.inr ?_
    rw [hhead _ hs, h]
    rfl
  case command =>
    intro h hs hc
    have htake : ∀ n d, c :: cs.take n = [cu '\\', d] → cs.head? = some d := by
      intro n d hd
      cases cs with
      | nil => simp at hd
      | cons e es => cases n <;> simp_all
    refine iff_of_false (by simp) fun htame => ?_
    rcases htame h with h | h
    · exact hs (htake _ _ h)
    · exact hc (htake _ _ h)
  case semicolon =>
    rintro k (rfl | rfl) h
    · exact hother (· = cu ';') _ _ (by decide) h (by decide)
    · exact hother (· = cu ';') _ _ (by decide) h (by decide)
  case word =>
    exact fun h => hother (fun c => (isIdentStart c || isDigit c) = true) _ _ (by decide) h
      (by decide)
  case symbol => exact fun _ _ h => hother (· ≠ cu '\\') _ _ (by decide) h (by decide)

theorem noCommand_iff_backslashesTame (s : State) (t : JsString) :
    NoCommand s t ↔ BackslashesTame (tokens s t) := by
  rw [NoCommand, BackslashesTame, tokens]
  induction s, t using read_induction next with
  | nil s => simp
  | cons s c cs ih =>
    rw [read_cons, List.forall_mem_cons, List.forall_mem_cons, ih]
    refine and_congr_left fun _ => ?_
    rw [List.head?_cons, Option.some.injEq]
    exact kind_ne_command_iff s c cs

theorem noCommand_withRowCap_iff (input : JsString) (engine : SqlEngine) :
    NoCommand start (withRowCap (normalizeSql input) engine) ↔
      NoCommand (before (statementOf input))
        (statementOf input ++ closingOf engine (statementOf input)) := by
  rw [NoCommand, tokens, read_withRowCap tokens_capOpening, List.forall_mem_append]
  exact and_iff_right fun y hy => (capTokens_spec _ y hy).2

/-- **What `psql` is handed is one statement and no command exactly when nothing but
blanks, comments and terminators stands behind a terminator that the guard does
not see, and a backslash outside quotes stands before a semicolon or a colon
only.** -/
theorem oneStatement_and_noCommand_iff {input role : JsString} {database : Option JsString}
    {call : SqlCall} (hrole : role ∉ writeRoles)
    (h : runQuery .postgres input role database = .ok call) :
    OneStatement call.statement ∧ NoCommand start call.statement ↔
      IdleBehindUnseen (tokens (before (statementOf input))
          (statementOf input ++ closingOf .postgres (statementOf input))) ∧
        BackslashesTame (tokens (before (statementOf input))
          (statementOf input ++ closingOf .postgres (statementOf input))) := by
  have hletter : ∀ c cs, isLetter c → SqlToken.isContent ⟨(next start c cs).kind, []⟩ := by
    intro c cs hc
    rcases next_of_isLetter hc start cs with hkind | hkind <;> rw [hkind] <;> rfl
  have hone := handed_one_iff tokens_capOpening hletter hrole h
  have hcommand := noCommand_withRowCap_iff input .postgres
  rw [← (runQuery_ok hrole h).2.2, noCommand_iff_backslashesTame (before _)] at hcommand
  exact and_congr hone hcommand

/-- Backslashes and a semicolon inside quotes, and a row cap. -/
def quotedBackslashes : JsString := js "select e'\\n;', $$\\g$$;"

theorem idle_quotedBackslashes :
    IdleBehindUnseen (tokens (before (statementOf quotedBackslashes))
        (statementOf quotedBackslashes ++
          closingOf .postgres (statementOf quotedBackslashes))) ∧
      BackslashesTame (tokens (before (statementOf quotedBackslashes))
        (statementOf quotedBackslashes ++
          closingOf .postgres (statementOf quotedBackslashes))) := by
  have hrun : runQuery .postgres quotedBackslashes (js "member") none =
      .ok ⟨js "SELECT * FROM (select e'\\n;', $$\\g$$) AS \"_q\" LIMIT 501", true, none⟩ := by
    decide
  exact (oneStatement_and_noCommand_iff (by decide) hrun).mp (by decide)

/-- The guard does not look at backslashes: a command of `psql` gets through. -/
theorem command_handed :
    js "member" ∉ writeRoles ∧ ∃ call,
      runQuery .postgres (js "show search_path \\! id") (js "member") none = .ok call ∧
        ¬ (OneStatement call.statement ∧ NoCommand start call.statement) :=
  ⟨by decide, ⟨js "show search_path \\! id", true, none⟩, by decide, by decide⟩

end Psql

end Aoox
