import Aoox.ShellRuns

/-! # Adding output to a file

`command >> file` adds what the command puts out to what the file has.  The scan of a script
refuses `>>`.  `cutAppend` stops in front of the first one, so that what stands in front of it is
read as any script is (`Lexes.cutAppend`), and `execLast` runs it: everything is done as without
the `>>`, but for the last simple command, whose output is added to the file.
-/
namespace Shell
variable {C W : Type}

/-- A system whose files can be added to. -/
structure AppendHost (C W : Type) extends Host C W where
  /-- A file is opened, or created; `none` when that is not possible. -/
  openAppend : List C → W → Option W
  appendFile : (path output : List C) → W → W

section Reading
variable [DecidableEq C] [Alphabet C]

/-- The tokens in front of the first `>>`, and the text behind it. -/
def cutAppend : Scan C → List C → Option (List (Token C) × List C)
  | _, [] => none
  | s, c :: t =>
    if s.mode = .greater false ∧ c = sign '>' then some (s.tokens, t) else cutAppend (s.step c) t

def Command.lastRedirects : Command C → List (Redirect C)
  | simple _ _ rs => rs
  | pipe _ d | and _ d | or _ d | seq _ d => d.lastRedirects

/-- A script that ends in `>> file`: the command in front of it, and the file. -/
def parseAppend (text : List C) : Option (Command C × Word C) :=
  (cutAppend start text).bind fun cut =>
    match parseList (4 * cut.1.length + 4) (skipSemis cut.1), lex cut.2 with
    | some (c, []), some [.word file] =>
      if c.lastRedirects = [] ∧ plainWord file = true then some (c, file) else none
    | _, _ => none

end Reading

section Running
variable [DecidableEq C] [Alphabet C] (host : AppendHost C W) (pipefail : Bool)
  (sub : List C → State C W → List C × State C W) (file : Word C)

/-- Runs a command, and adds the output of its last simple command to a file. -/
def execLast : Command C → (tested : Bool) → (stdin : List C) → State C W → State C W × List C
  | .simple assigns words redirects, tested, stdin, s =>
    let path := text (expandWord sub file s).1
    match host.openAppend path s.world with
    | none => settle tested ({ s with status := 1 }, [])
    | some w =>
      let r := exec host.toHost pipefail sub (.simple assigns words redirects) tested stdin (s.on w)
      (r.1.on (host.appendFile path r.2 r.1.world), [])
  | .pipe c d, tested, stdin, s =>
    let r := exec host.toHost pipefail sub c tested stdin s
    let r' := execLast d tested r.2 (s.subshell r.1)
    settle tested
      ({ s.subshell r'.1 with status := pipeStatus pipefail r.1.status r'.1.status }, r'.2)
  | .and c d, tested, stdin, s =>
    let r := exec host.toHost pipefail sub c true stdin s
    if r.1.exited ∨ r.1.status ≠ 0 then r
    else let r' := execLast d tested stdin r.1; (r'.1, r.2 ++ r'.2)
  | .or c d, tested, stdin, s =>
    let r := exec host.toHost pipefail sub c true stdin s
    if r.1.exited ∨ r.1.status = 0 then r
    else let r' := execLast d tested stdin r.1; (r'.1, r.2 ++ r'.2)
  | .seq c d, tested, stdin, s =>
    let r := exec host.toHost pipefail sub c tested stdin s
    if r.1.exited then r
    else let r' := execLast d tested stdin r.1; (r'.1, r.2 ++ r'.2)

/-- `sh -c text` of a script that ends in `>> file`, in an environment. -/
def shAppend (t : List C) (vars : List C → List C) (w : W) : State C W × List C :=
  match parseAppend t with
  | none => ({ initial vars w with status := 2 }, [])
  | some (c, file) =>
    execLast host pipefail (substitute host.toHost pipefail t.length) file c false [] (initial vars w)

end Running

/-! ## Reading up to the `>>` -/

section Lexing
variable [DecidableEq C] [Alphabet C] {s : Scan C} {t : List C} {tokens : List (Token C)}

theorem scan_bad (h : s.mode = .bad) (t : List C) : (scan s t).mode = .bad := by
  induction t generalizing s with
  | nil => exact h
  | cons c t ih =>
    have hstep : s.step c = s := by rw [Scan.step, h]
    rw [scan_cons, hstep]
    exact ih h

/-- A text that can be read has no `>>`. -/
theorem cutAppend_scan (h : (scan s t).mode ≠ .bad) (rest : List C) :
    cutAppend s (t ++ rest) = cutAppend (scan s t) rest := by
  induction t generalizing s with
  | nil => rfl
  | cons c t ih =>
    rw [scan_cons] at h
    have hmiss : ¬ (s.mode = .greater false ∧ c = sign '>') := by
      rintro ⟨hmode, rfl⟩
      refine h (scan_bad ?_ t)
      rw [Scan.step, hmode]
      have hand : sign (C := C) '>' ≠ sign '&' := fun heq =>
        absurd ((sign_eq_iff (by decide) (by decide)).mp heq) (by decide)
      simp [hand, Scan.into]
    rw [List.cons_append, cutAppend, if_neg hmiss, ih h, scan_cons]

/-- **What stands in front of ` >>` is read as it is without it.** -/
theorem Lexes.cutAppend (h : Lexes t tokens) (rest : List C) :
    Shell.cutAppend start (t ++ sign ' ' :: sign '>' :: sign '>' :: rest) = some (tokens, rest) := by
  have hmode : (scan start t).mode = .plain := (h []).1
  have hclosed : (scan start t).close.into .plain = ⟨.plain, none, tokens⟩ := (h []).2
  have hblank : (scan start t).step (sign ' ') = ⟨.plain, none, tokens⟩ := by
    rw [Scan.step, hmode, ← hclosed]
    exact if_pos (by simp [isBlank])
  have hgreater : Scan.step (⟨.plain, none, tokens⟩ : Scan C) (sign '>') =
      ⟨.greater false, none, tokens⟩ := by
    simp (disch := decide) [Scan.step, Scan.plainStep, Scan.redirect, isBlank, sign_eq_iff,
      Scan.close,
      Scan.into]
  have hskip : ∀ {s s' : Scan C} {c : C} {t : List C}, s.mode = .plain → s.step c = s' →
      Shell.cutAppend s (c :: t) = Shell.cutAppend s' t := by
    intro s s' c t hs hstep
    rw [Shell.cutAppend, hstep]
    refine if_neg fun h => ?_
    rw [hs] at h
    cases h.1
  rw [cutAppend_scan (by rw [hmode]; exact fun h => by cases h), hskip hmode hblank,
    hskip rfl hgreater, Shell.cutAppend]
  exact if_pos ⟨rfl, rfl⟩

theorem Lexes.parseAppend {c : Command C} {file : Word C} {rest : List C} (h : Lexes t tokens)
    (hparse : parseList (4 * tokens.length + 4) (skipSemis tokens) = some (c, []))
    (hfile : Shell.lex rest = some [.word file]) (hlast : c.lastRedirects = [])
    (hplain : plainWord file = true) :
    Shell.parseAppend (t ++ sign ' ' :: sign '>' :: sign '>' :: rest) = some (c, file) := by
  rw [Shell.parseAppend, h.cutAppend, Option.bind_some]
  simp only [hparse, hfile]
  exact if_pos ⟨hlast, hplain⟩

end Lexing

/-! ## Running -/

section Joined
variable [DecidableEq C] [Alphabet C] {host : AppendHost C W} {pipefail tested : Bool}
  {sub : List C → State C W → List C × State C W} {file : Word C} {stdin : List C}
  {s : State C W} {c d : Command C} {r : State C W × List C}

theorem execLast_or_goes (hc : exec host.toHost pipefail sub c true stdin s = r)
    (hr : r.1.exited = false) (hfailed : r.1.status ≠ 0) :
    (execLast host pipefail sub file (.or c d) tested stdin s).1 =
      (execLast host pipefail sub file d tested stdin r.1).1 := by
  simp only [execLast, hc, hr, hfailed, Bool.false_eq_true, or_self, if_false]

theorem execLast_or_stops (hc : exec host.toHost pipefail sub c true stdin s = r)
    (hok : r.1.status = 0) : execLast host pipefail sub file (.or c d) tested stdin s = r := by
  simp only [execLast, hc, hok, or_true, if_true]

end Joined

end Shell
