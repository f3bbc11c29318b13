import Aoox.Filling
import Aoox.LayerMerge

/-! # The env file of a compose stack

A deploy of a compose stack writes the resolved environment into a file, one entry a line, and
Compose reads it again as a dotenv file: `$NAME` and `${NAME}` are filled in, quotes around a
value are taken off, and a space with a `#` begins a comment.  The file is written as if there
were no such rules, so it is read back as it was exactly if no value has anything they speak of
(`envFile_iff`).

That a value with a reference is never read back by chance is a matter of the first one: the
values in front of it are read as they are, so none of them has a reference, and nothing filled in
can bring back the text of one (`Filling.fill_moved`).
-/
namespace Aoox.ComposeEnvFile
open JsString Filling

/-! ## The file -/

/-- The options a deploy resolves the environment of a stack with. -/
def composeOptions : ResolveOptions := ⟨true, false⟩

/-- The content of `.aoox.env`. -/
def envFile (resolved : ResolvedEnv) : JsString := join resolved.env (js "\n") ++ js "\n"

def entryValue (line : JsString) : JsString := (line.dropWhile (· != cu '=')).drop 1

/-- What the entries say to the Engine API: up to the first `=` it is the name. -/
def engineEnv (env : List JsString) : List (JsString × JsString) :=
  env.map fun entry => (entryKey entry, entryValue entry)

/-! ## Dotenv -/

def isNamePart (c : CodeUnit) : Bool := isLetter c || c == cu '_' || isDigit c

/-- The name at the head of a text. -/
def nameAt (t : JsString) : Option JsString :=
  if isEnvName (t.takeWhile isNamePart) then some (t.takeWhile isNamePart) else none

/-- `$NAME` or `${NAME}` at the head of a text: the name, and how long it all is. -/
def matchVariable : JsString → Option (JsString × Nat)
  | [] => none
  | c :: cs =>
    if c = cu '$' then
      match nameAt cs with
      | some name => some (name, name.length + 1)
      | none =>
        match cs with
        | [] => none
        | d :: ds =>
          if d = cu '\x7b' then
            (nameAt ds).bind fun name =>
              if (ds.drop name.length).head? = some (cu '\x7d') then some (name, name.length + 3) else none
          else none
    else none

/-- Single or double quotes around a text. -/
def isQuoted (t : JsString) : Bool :=
  2 ≤ t.length && t.head? = t.getLast? && (t.head? = some (cu '"') || t.head? = some (cu '\''))

def unquoted (t : JsString) : JsString := if isQuoted t then t.tail.dropLast else t

/-- The text in front of a comment. -/
def uncommented (t : JsString) : JsString :=
  match indexOf (js " #") t 0 with
  | some i => t.take i
  | none => t

/-- What is left of a value before its references are filled in. -/
def bare (raw : JsString) : JsString := unquoted (if isQuoted raw then raw else uncommented raw)

/-! ### References -/

variable {name : JsString}

variable {t : JsString}

theorem nameAt_eq (h : nameAt t = some name) :
    name = t.takeWhile isNamePart ∧ isEnvName name = true := by
  rw [nameAt] at h
  split_ifs at h with hname
  exact ⟨(Option.some.inj h).symm, Option.some.inj h ▸ hname⟩

theorem isEnvName_append (h : isEnvName name = true)
    (ht : ∀ c ∈ t, isNamePart c = true) : isEnvName (name ++ t) = true := by
  cases name with
  | nil => cases h
  | cons c cs =>
    simp only [isEnvName, List.cons_append, Bool.and_eq_true, List.all_append] at h ⊢
    exact ⟨h.1, h.2, List.all_eq_true.mpr ht⟩

theorem isNamePart_of_isEnvName (h : isEnvName name = true) : ∀ c ∈ name, isNamePart c = true := by
  cases name with
  | nil => cases h
  | cons c cs =>
    simp only [isEnvName, Bool.and_eq_true] at h
    intro d hd
    rcases List.mem_cons.mp hd with rfl | hd
    · simp only [isNamePart, h.1, Bool.true_or]
    · exact List.all_eq_true.mp h.2 d hd

/-- A name is one with anything behind it, if only a longer one. -/
theorem nameAt_append (h : isEnvName name = true) (u : JsString) :
    (nameAt (name ++ u)).isSome = true := by
  have htake : (name ++ u).takeWhile isNamePart = name ++ u.takeWhile isNamePart :=
    List.takeWhile_append_of_pos (isNamePart_of_isEnvName h)
  rw [nameAt, htake, if_pos (isEnvName_append h fun c hc => List.mem_takeWhile_imp hc)]
  rfl

theorem nameAt_stops {rest : JsString} (h : isEnvName name = true) (hrest : Stops isNamePart rest) :
    nameAt (name ++ rest) = some name := by
  rw [nameAt, (takeWhile_append_stops (isNamePart_of_isEnvName h) hrest).1, if_pos h]

theorem matchVariable_some {n : Nat} (h : matchVariable t = some (name, n)) :
    isEnvName name = true ∧ ((n = name.length + 1 ∧ t.take n = cu '$' :: name ∧ n ≤ t.length) ∨
        (n = name.length + 3 ∧ t.take n = cu '$' :: cu '\x7b' :: (name ++ [cu '\x7d']) ∧ n ≤ t.length)) := by
  unfold matchVariable at h
  split at h
  · cases h
  rename_i c cs
  split_ifs at h with hc
  subst hc
  split at h
  · rename_i name' hname
    obtain ⟨rfl, rfl⟩ := Prod.mk.inj (Option.some.inj h)
    obtain ⟨htake, henv⟩ := nameAt_eq hname
    have hpre : name' <+: cs := htake ▸ List.takeWhile_prefix _
    refine ⟨henv, Or.inl ⟨rfl, ?_, ?_⟩⟩
    · rw [List.take_succ_cons, ← List.prefix_iff_eq_take.mp hpre]
    · have := hpre.length_le
      simpa using this
  · split at h
    · cases h
    rename_i d ds _
    split_ifs at h with hd
    subst hd
    obtain ⟨name', hname, hend⟩ := Option.bind_eq_some_iff.mp h
    split_ifs at hend with hclose
    obtain ⟨rfl, rfl⟩ := Prod.mk.inj (Option.some.inj hend)
    obtain ⟨htake, henv⟩ := nameAt_eq hname
    obtain ⟨rest, hrest⟩ : name' <+: ds := htake ▸ List.takeWhile_prefix _
    subst hrest
    rw [List.drop_left] at hclose
    obtain ⟨rest', rfl⟩ : ∃ rest', rest = cu '\x7d' :: rest' := by
      cases rest with
      | nil => cases hclose
      | cons e es => exact ⟨es, by rw [Option.some.inj hclose]⟩
    refine ⟨henv, Or.inr ⟨rfl, ?_, ?_⟩⟩
    · simp [List.take_append]
    · simp

theorem nameAt_none {c : CodeUnit} (hc : isNamePart c = false) (cs : JsString) :
    nameAt (c :: cs) = none := by
  rw [nameAt, List.takeWhile_cons_of_neg (by simp [hc])]
  rfl

/-- The references of a dotenv file. -/
def interpolation : Form CodeUnit (JsString × Nat) where
  find := matchVariable
  size := Prod.snd
  size_pos := by
    rintro t ⟨name, n⟩ h
    obtain ⟨-, ⟨rfl, -, -⟩ | ⟨rfl, -, -⟩⟩ := matchVariable_some h <;> exact Nat.succ_pos _
  size_le := by
    rintro t ⟨name, n⟩ h
    obtain ⟨-, ⟨-, -, hle⟩ | ⟨-, -, hle⟩⟩ := matchVariable_some h <;> exact hle
  holds := by
    rintro t ⟨name, n⟩ u h
    obtain ⟨henv, ⟨-, htake, -⟩ | ⟨-, htake, -⟩⟩ := matchVariable_some h
    · obtain ⟨longer, hlonger⟩ := Option.isSome_iff_exists.mp (nameAt_append henv u)
      simp [htake, matchVariable, hlonger]
    · have hname : nameAt (name ++ (cu '\x7d' :: u)) = some name :=
        nameAt_stops henv (stops_cons (by decide) u)
      simp [htake, matchVariable, hname, nameAt_none (c := cu '\x7b') (by decide)]

/-! ### Lines -/

/-- The value of a reference: that of the environment, or of the lines in front. -/
def lookup (outer : JsString → Option JsString) (vars : List (JsString × JsString)) (x : JsString × Nat) :
    JsString :=
  (outer x.1).getD ((Assoc.get vars x.1).getD [])

def readValue (outer : JsString → Option JsString) (vars : List (JsString × JsString)) (raw : JsString) :
    JsString :=
  fill interpolation (lookup outer vars) (bare raw)

/-- One line: a name, a `=` and a value. -/
def readLine (outer : JsString → Option JsString) (vars : List (JsString × JsString)) (line : JsString) :
    List (JsString × JsString) :=
  if cu '=' ∈ line ∧ includes (entryKey line) (js " #") = false then
    Assoc.set vars (entryKey line) (readValue outer vars (entryValue line))
  else vars

def readEnvFile (outer : JsString → Option JsString) (text : JsString) : List (JsString × JsString) :=
  (split text (js "\n")).foldl (readLine outer) []

/-! ## Values that are read as they are -/

/-- Nothing in the value is of the rules. -/
structure Plain (value : JsString) : Prop where
  line : cu '\n' ∉ value
  comment : includes value (js " #") = false
  quotes : isQuoted value = false
  reference : ¬ Occurs interpolation value

instance (value : JsString) : Decidable (Plain value) :=
  decidable_of_iff (cu '\n' ∉ value ∧ includes value (js " #") = false ∧ isQuoted value = false ∧
    ¬ Occurs interpolation value) ⟨fun ⟨a, b, c, d⟩ => ⟨a, b, c, d⟩, fun ⟨a, b, c, d⟩ => ⟨a, b, c, d⟩⟩

/-- What an environment can put in: no line end, and no reference. -/
def Settled (value : JsString) : Prop := cu '\n' ∉ value ∧ ¬ Occurs interpolation value

theorem unquoted_spec (t : JsString) :
    ∃ x z, t = x ++ (unquoted t ++ z) ∧ (x = [] → isQuoted t = false) := by
  rw [unquoted]
  split_ifs with h
  · have hlen : 2 ≤ t.length := by
      rw [isQuoted, Bool.and_eq_true, Bool.and_eq_true] at h
      exact of_decide_eq_true h.1.1
    obtain ⟨c, cs, rfl⟩ := List.exists_cons_of_ne_nil (l := t) (by rintro rfl; exact absurd hlen (by decide))
    have hne : cs ≠ [] := by
      rintro rfl
      simp at hlen
    refine ⟨[c], [cs.getLast hne], ?_, fun habsurd => absurd habsurd (by simp)⟩
    simp [List.dropLast_append_getLast hne]
  · exact ⟨[], [], by simp, fun _ => by simpa using h⟩

theorem uncommented_spec (t : JsString) :
    ∃ z, t = uncommented t ++ z ∧ (z = [] → includes t (js " #") = false) := by
  rw [uncommented, includes]
  cases h : indexOf (js " #") t 0 with
  | none => exact ⟨[], by simp, fun _ => rfl⟩
  | some i =>
    obtain ⟨-, -, hlt⟩ := indexOf_some (by decide) h
    refine ⟨t.drop i, (List.take_append_drop i t).symm, fun hnil => ?_⟩
    rw [List.drop_eq_nil_iff] at hnil
    exact absurd hlt (Nat.not_lt.mpr hnil)

/-- What is left of a value is a part of it, and all of it only without quotes and comments. -/
theorem bare_spec (raw : JsString) : ∃ x z, raw = x ++ (bare raw ++ z) ∧
      (x = [] → z = [] → isQuoted raw = false ∧ includes raw (js " #") = false) := by
  rw [bare]
  by_cases hquoted : isQuoted raw = true
  · rw [if_pos hquoted]
    obtain ⟨x, z, heq, hx⟩ := unquoted_spec raw
    refine ⟨x, z, heq, fun hnil => ?_⟩
    rw [hx hnil] at hquoted
    cases hquoted
  · rw [if_neg hquoted]
    obtain ⟨z, heq, hz⟩ := uncommented_spec raw
    obtain ⟨x, z', heq', -⟩ := unquoted_spec (uncommented raw)
    refine ⟨x, z' ++ z, ?_, fun _ hnil => ⟨by simpa using hquoted, hz (List.append_eq_nil_iff.mp hnil).2⟩⟩
    rw [← List.append_assoc, ← List.append_assoc, List.append_assoc x, ← heq']
    exact heq

theorem bare_of_plain {raw : JsString} (hquotes : isQuoted raw = false)
    (hcomment : includes raw (js " #") = false) : bare raw = raw := by
  have hun : uncommented raw = raw := by
    rw [uncommented]
    rw [includes, Option.isSome_eq_false_iff, Option.isNone_iff_eq_none] at hcomment
    rw [hcomment]
  simp [bare, hquotes, hun, unquoted]

section Values
variable {outer : JsString → Option JsString} {vars : List (JsString × JsString)}

variable {value : JsString}

theorem readValue_of_plain (h : Plain value) : readValue outer vars value = value := by
  rw [readValue, bare_of_plain h.quotes h.comment, fill_of_not_occurs h.reference]

/-- **A value that is read as it is**, where nothing that can be put in has a reference, has
nothing of the rules in it. -/
theorem plain_of_readValue (hlookup : ∀ x, ¬ Occurs interpolation (lookup outer vars x))
    (hline : cu '\n' ∉ value) (h : readValue outer vars value = value) : Plain value := by
  obtain ⟨x, z, heq, hplain⟩ := bare_spec value
  have hfill : x ++ (bare value ++ z) = fill interpolation (lookup outer vars) (bare value) :=
    heq.symm.trans h.symm
  obtain ⟨rfl, rfl, hocc⟩ := fill_moved hlookup hfill
  obtain ⟨hquotes, hcomment⟩ := hplain rfl rfl
  rw [bare_of_plain hquotes hcomment] at hocc
  exact ⟨hline, hcomment, hquotes, hocc⟩

end Values

/-! ## Reading the file -/

section Reading
variable {outer : JsString → Option JsString}

theorem split_lines (ls : List JsString) (h : ∀ l ∈ ls, cu '\n' ∉ l) :
    ∃ empty, split (join ls (js "\n") ++ js "\n") (js "\n") = ls ++ empty ∧ ∀ l ∈ empty, l = [] := by
  cases ls with
  | nil => exact ⟨[[], []], by decide, by simp⟩
  | cons l ls =>
    refine ⟨[[]], ?_, by simp⟩
    induction ls generalizing l with
    | nil =>
      have hl : cu '\n' ∉ l := h l List.mem_cons_self
      show split (join [l] _ ++ [cu '\n']) [cu '\n'] = _
      rw [split_append_unit, join, List.intercalate_singleton, split_of_not_mem hl]
      rfl
    | cons l' ls ih =>
      have hl : cu '\n' ∉ l := h l List.mem_cons_self
      have hrest := ih l' fun m hm => h m (List.mem_cons_of_mem _ hm)
      have hjoin : join (l :: l' :: ls) (js "\n") = l ++ cu '\n' :: join (l' :: ls) (js "\n") := by
        simp [join, List.intercalate_cons_cons]
        rfl
      rw [hjoin, List.append_assoc, List.cons_append]
      show split (l ++ cu '\n' :: _) [cu '\n'] = _
      rw [split_append_unit, split_of_not_mem hl]
      exact congrArg (l :: ·) hrest

theorem readLine_nil (vars : List (JsString × JsString)) : readLine outer vars [] = vars := by
  simp [readLine]

theorem readEnvFile_eq {ls : List JsString} (h : ∀ l ∈ ls, cu '\n' ∉ l) :
    readEnvFile outer (join ls (js "\n") ++ js "\n") = ls.foldl (readLine outer) [] := by
  obtain ⟨empty, hsplit, hempty⟩ := split_lines ls h
  rw [readEnvFile, hsplit, List.foldl_append]
  generalize ls.foldl (readLine outer) [] = vars
  clear hsplit
  induction empty with
  | nil => rfl
  | cons l empty ih =>
    rw [List.foldl_cons, hempty l List.mem_cons_self, readLine_nil]
    exact ih fun m hm => hempty m (List.mem_cons_of_mem _ hm)

/-- What has been read so far. -/
def Read (vars : List (JsString × JsString)) : Prop :=
  ∀ key value, Assoc.get vars key = some value → cu '\n' ∉ value ∧ includes key (js " #") = false

/-- **A value that has been read is on one line**, and its name is in front of every comment. -/
theorem read_readEnvFile (houter : ∀ name value, outer name = some value → cu '\n' ∉ value)
    (text : JsString) : Read (readEnvFile outer text) := by
  have hstep : ∀ vars line, Read vars → cu '\n' ∉ line → Read (readLine outer vars line) := by
    intro vars line hvars hline
    rw [readLine]
    split_ifs with h
    · intro key value hget
      rw [Assoc.get_set] at hget
      split_ifs at hget with hkey
      · refine ⟨?_, hkey ▸ h.2⟩
        obtain rfl := Option.some.inj hget
        intro hmem
        rcases mem_fill hmem with hmem | ⟨x, hmem⟩
        · obtain ⟨a, b, heq, -⟩ := bare_spec (entryValue line)
          have hin : cu '\n' ∈ entryValue line := by
            rw [heq]
            simp [hmem]
          have hsuffix : entryValue line <:+ line := (List.drop_suffix _ _).trans (List.dropWhile_suffix _)
          exact hline (hsuffix.subset hin)
        · rw [lookup] at hmem
          cases ho : outer x.1 with
          | some value =>
            rw [ho] at hmem
            exact houter _ _ ho hmem
          | none =>
            rw [ho] at hmem
            cases hv : Assoc.get vars x.1 with
            | some value =>
              rw [hv] at hmem
              exact (hvars _ _ hv).1 hmem
            | none =>
              rw [hv] at hmem
              cases hmem
      · exact hvars key value hget
    · exact hvars
  have hfold : ∀ (lines : List JsString) vars, Read vars → (∀ l ∈ lines, cu '\n' ∉ l) →
      Read (lines.foldl (readLine outer) vars) := by
    intro lines
    induction lines with
    | nil => exact fun vars hvars _ => hvars
    | cons l lines ih =>
      intro vars hvars hlines
      exact ih _ (hstep vars l hvars (hlines l List.mem_cons_self))
        fun m hm => hlines m (List.mem_cons_of_mem _ hm)
  exact hfold _ [] (fun key value hget => by cases hget) fun l hl => not_mem_of_mem_splitGo hl

variable {key : JsString}

theorem entryValue_lineOf (h : cu '=' ∉ key) (value : JsString) :
    entryValue (lineOf key value) = value := by
  have hdrop : (lineOf key value).dropWhile (· != cu '=') = cu '=' :: value := by
    refine (takeWhile_append_stops ?_ (stops_cons (by decide) value)).2
    intro c hc
    rw [bne_iff_ne]
    rintro rfl
    exact h hc
  rw [entryValue, hdrop]
  rfl

variable {es : List (JsString × JsString)}

theorem engineEnv_lineOf (h : ∀ e ∈ es, cu '=' ∉ e.1) :
    engineEnv (es.map fun e => lineOf e.1 e.2) = es := by
  rw [engineEnv, List.map_map]
  refine (List.map_congr_left fun e he => ?_).trans (List.map_id es)
  exact Prod.ext (entryKey_lineOf (h e he) e.2) (entryValue_lineOf (h e he) e.2)

variable {vars : List (JsString × JsString)}

theorem readLine_lineOf {e : JsString × JsString} (h : cu '=' ∉ e.1)
    (hcomment : includes e.1 (js " #") = false) :
    readLine outer vars (lineOf e.1 e.2) = Assoc.set vars e.1 (readValue outer vars e.2) := by
  rw [readLine, entryKey_lineOf h, entryValue_lineOf h, if_pos ⟨by simp [lineOf], hcomment⟩]

def readEntries (outer : JsString → Option JsString) (vars es : List (JsString × JsString)) :
    List (JsString × JsString) :=
  es.foldl (fun vars e => Assoc.set vars e.1 (readValue outer vars e.2)) vars

theorem foldl_readLine (h : ∀ e ∈ es, cu '=' ∉ e.1 ∧ includes e.1 (js " #") = false)
    (vars : List (JsString × JsString)) :
    (es.map fun e => lineOf e.1 e.2).foldl (readLine outer) vars = readEntries outer vars es := by
  induction es generalizing vars with
  | nil => rfl
  | cons e es ih =>
    obtain ⟨heq, hcomment⟩ := h e List.mem_cons_self
    rw [List.map_cons, List.foldl_cons, readLine_lineOf heq hcomment]
    exact ih (fun d hd => h d (List.mem_cons_of_mem _ hd)) _

/-- Reading on changes no other name. -/
theorem get_readEntries (h : key ∉ es.map Prod.fst) (vars : List (JsString × JsString)) :
    Assoc.get (readEntries outer vars es) key = Assoc.get vars key := by
  induction es generalizing vars with
  | nil => rfl
  | cons e es ih =>
    rw [List.map_cons, List.mem_cons, not_or] at h
    refine (ih h.2 _).trans ?_
    rw [Assoc.get_set, if_neg (Ne.symm h.1)]

/-- Plain values are read as they are, whatever can be put in. -/
theorem readEntries_of_plain (h : ∀ e ∈ es, Plain e.2)
    (vars : List (JsString × JsString)) : readEntries outer vars es = Assoc.setAll vars es := by
  induction es generalizing vars with
  | nil => rfl
  | cons e es ih =>
    have hstep : readEntries outer vars (e :: es) =
        readEntries outer (Assoc.set vars e.1 (readValue outer vars e.2)) es := rfl
    rw [hstep, readValue_of_plain (h e List.mem_cons_self)]
    exact ih (fun d hd => h d (List.mem_cons_of_mem _ hd)) _

/-- **The first value with a reference** is read in front of values without one. -/
theorem plain_of_readEntries (houter : ∀ name value, outer name = some value → Settled value)
    (hnodup : (es.map Prod.fst).Nodup) (hline : ∀ e ∈ es, cu '\n' ∉ e.2)
    (hvars : ∀ key value, Assoc.get vars key = some value → ¬ Occurs interpolation value)
    (h : ∀ e ∈ es, Assoc.get (readEntries outer vars es) e.1 = some e.2) : ∀ e ∈ es, Plain e.2 := by
  induction es generalizing vars with
  | nil => exact fun e he => absurd he List.not_mem_nil
  | cons e es ih =>
    rw [List.map_cons, List.nodup_cons] at hnodup
    have hlookup : ∀ x, ¬ Occurs interpolation (lookup outer vars x) := by
      intro x
      rw [lookup]
      cases ho : outer x.1 with
      | some value => exact (houter _ _ ho).2
      | none =>
        cases hv : Assoc.get vars x.1 with
        | some value => exact hvars _ _ hv
        | none => exact not_occurs_nil
    have hread : readValue outer vars e.2 = e.2 := by
      have hget := h e List.mem_cons_self
      have hkept : Assoc.get (readEntries outer vars (e :: es)) e.1 =
          Assoc.get (Assoc.set vars e.1 (readValue outer vars e.2)) e.1 := get_readEntries hnodup.1 _
      rw [hkept, Assoc.get_set, if_pos rfl] at hget
      exact Option.some.inj hget
    have hplain : Plain e.2 := plain_of_readValue hlookup (hline e List.mem_cons_self) hread
    have hvars' : ∀ key value, Assoc.get (Assoc.set vars e.1 (readValue outer vars e.2)) key = some value →
        ¬ Occurs interpolation value := by
      intro key value hget
      rw [Assoc.get_set, hread] at hget
      split_ifs at hget with hkey
      · exact Option.some.inj hget ▸ hplain.reference
      · exact hvars key value hget
    intro d hd
    rcases List.mem_cons.mp hd with rfl | hd
    · exact hplain
    · refine ih hnodup.2 (fun d hd => hline d (List.mem_cons_of_mem _ hd)) hvars' (fun d hd => ?_) d hd
      exact h d (List.mem_cons_of_mem _ hd)

end Reading

/-! ## The resolved environment -/

theorem resolved_entries {svc : Services} {layers : List Layer} {app : EnvOwner} {opts : ResolveOptions}
    {r : ResolvedEnv} (h : resolve svc layers app opts = .ok r) :
    ∃ es : List (JsString × JsString), r.env = es.map (fun e => lineOf e.1 e.2) ∧
      (es.map Prod.fst).Nodup ∧ ∀ e ∈ es, cu '=' ∉ e.1 ∧ cu '\n' ∉ e.1 := by
  obtain ⟨fetched, -, henv, -, -⟩ := resolve_spec h
  refine ⟨(contextOf svc layers app opts fetched).merged.map
    fun e => (e.1, (contextOf svc layers app opts fetched).shown e), ?_, ?_, ?_⟩
  · rw [henv, List.map_map]
    rfl
  · rw [← sourcesOf_map, List.map_map, List.map_map]
    exact nodup_sourcesOf
  · intro e he
    obtain ⟨e', he', rfl⟩ := List.mem_map.mp he
    rw [← sourcesOf_map] at he'
    obtain ⟨s, hs, rfl⟩ := List.mem_map.mp he'
    refine ⟨equals_notMem_key hs, ?_⟩
    rcases entry_or_name hs with ⟨value, hentry⟩ | hname
    · exact hentry.key_line
    · intro hmem
      exact absurd (isNamePart_of_isEnvName hname _ hmem) (by decide)

/-- **The env file and its reader**: the file of a resolved environment is read back as that
environment exactly if no name has a comment in it, and no value has a line end, a comment, quotes
around it or a reference. -/
theorem envFile_iff {outer : JsString → Option JsString}
    (houter : ∀ name value, outer name = some value → Settled value) {svc : Services}
    {layers : List Layer} {app : EnvOwner} {r : ResolvedEnv}
    (h : resolve svc layers app composeOptions = .ok r) :
    (∀ key, Assoc.get (readEnvFile outer (envFile r)) key = Assoc.get (engineEnv r.env) key) ↔
      ∀ e ∈ engineEnv r.env, includes e.1 (js " #") = false ∧ Plain e.2 := by
  obtain ⟨es, henv, hnodup, hkeys⟩ := resolved_entries h
  have hengine : engineEnv r.env = es := by
    rw [henv, engineEnv_lineOf fun e he => (hkeys e he).1]
  have hlines : (∀ e ∈ es, cu '\n' ∉ e.2) → ∀ l ∈ r.env, cu '\n' ∉ l := by
    intro hvalues l hl
    rw [henv] at hl
    obtain ⟨e, he, rfl⟩ := List.mem_map.mp hl
    simp only [lineOf, List.mem_append, List.mem_cons, not_or]
    exact ⟨(hkeys e he).2, by decide, hvalues e he⟩
  have hread : (∀ e ∈ es, cu '\n' ∉ e.2) → (∀ e ∈ es, includes e.1 (js " #") = false) →
      readEnvFile outer (envFile r) = readEntries outer [] es := by
    intro hvalues hcomments
    rw [envFile, readEnvFile_eq (hlines hvalues), henv]
    exact foldl_readLine (fun e he => ⟨(hkeys e he).1, hcomments e he⟩) []
  rw [hengine]
  constructor
  · intro hall
    have hget : ∀ e ∈ es, Assoc.get (readEnvFile outer (envFile r)) e.1 = some e.2 := by
      intro e he
      rw [hall, Assoc.get_of_mem hnodup he]
    have hspec := read_readEnvFile (fun name value ho => (houter name value ho).1) (envFile r)
    have hvalues : ∀ e ∈ es, cu '\n' ∉ e.2 := fun e he => (hspec _ _ (hget e he)).1
    have hcomments : ∀ e ∈ es, includes e.1 (js " #") = false := fun e he => (hspec _ _ (hget e he)).2
    rw [hread hvalues hcomments] at hget
    have hplain := plain_of_readEntries houter hnodup hvalues (fun key value habsurd => by cases habsurd) hget
    exact fun e he => ⟨hcomments e he, hplain e he⟩
  · intro hall key
    rw [hread (fun e he => (hall e he).2.line) fun e he => (hall e he).1,
      readEntries_of_plain fun e he => (hall e he).2]
    rw [Assoc.get_setAll, Assoc.get_reverse hnodup, Assoc.get_nil, Option.or_none]

/-! ## A password -/

/-- A stack with one variable of its own. -/
theorem envFile_iff_plain :
    Assoc.get (readEnvFile (fun _ => none) (envFile ⟨[js "A=1"], []⟩)) (js "A") = some (js "1") := by
  have hresolve : resolve noServices [] (plainOwner (js "A=1")) composeOptions = .ok ⟨[js "A=1"], []⟩ := by
    decide
  rw [(envFile_iff (fun _ _ h => by cases h) hresolve).mpr (by decide)]
  decide

/-- **A password is cut**: `a$b` is read as `a`, and `a #1` too. -/
theorem password_cut :
    ∃ r, resolve noServices [] (plainOwner (js "P=a$b\nQ=a #1")) composeOptions = .ok r ∧
      Assoc.get (engineEnv r.env) (js "P") = some (js "a$b") ∧
      Assoc.get (readEnvFile (fun _ => none) (envFile r)) (js "P") = some (js "a") ∧
      Assoc.get (engineEnv r.env) (js "Q") = some (js "a #1") ∧
      Assoc.get (readEnvFile (fun _ => none) (envFile r)) (js "Q") = some (js "a") := by
  refine ⟨⟨[js "P=a$b", js "Q=a #1"], []⟩, ?_⟩
  decide

end Aoox.ComposeEnvFile
