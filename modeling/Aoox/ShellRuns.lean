import Aoox.ShellSyntax
import Mathlib.Data.List.Find
import Mathlib.Data.List.SplitBy
import Mathlib.Tactic.FinCases
import Mathlib.Tactic.IntervalCases

/-! # Running a shell script

What the commands of a script do, over any system they run on (`Host`): the programs that are
called, with the words they are called with and what they read, and the files output is sent to.
The shell's own part is here: the expansion of words (`expandWord`, `fields`), the status of
a pipeline with and without `pipefail`, of `&&`, `||` and `;`, `set -e`, and the commands that
are the shell's own.

The programs of a pipeline run one after the other, each on all that the one before has put
out.  Every call of a program is noted (`Call`), with its answer.
-/
open List
namespace Shell
variable {C W : Type}

/-- A character of an expanded word, or a place where the word is split. -/
inductive Mark (C : Type) where
  | char (c : C) (quoted : Bool)
  | quotes
  | split (c : C)
  deriving DecidableEq

/-- A call of a program: the words, what it read, what it found, its exit code and its
output. -/
structure Call (C W : Type) where
  argv : List (List C)
  stdin : List C
  before : W
  code : Nat
  output : List C

/-- The system the script runs on. -/
structure Host (C W : Type) where
  /-- A program runs: its exit code, its output, and what it has done. -/
  exec : (argv : List (List C)) → (stdin : List C) → W → Nat × List C × W
  /-- A file is created or emptied for output; `none` when that is not possible. -/
  openFile : List C → W → Option W
  writeFile : (path output : List C) → W → W
  isFile : List C → W → Bool
  /-- The names a pattern stands for. -/
  glob : List (Mark C) → W → List (List C)

structure State (C W : Type) where
  vars : List C → List C
  status : Nat
  /-- `set -e`. -/
  (errexit exited : Bool)
  world : W
  calls : List (Call C W)

def State.on (s : State C W) (w : W) : State C W := { s with world := w }

section Running
variable [DecidableEq C] [Alphabet C]

def word (text : String) : List C := text.toList.map sign

def numeral (n : Nat) : List C := (Nat.toDigits 10 n).map sign

/-- The number a digit stands for. -/
def digit (c : C) : Option Nat := (List.range 10).find? fun d => c = sign d.digitChar

/-- The number a numeral stands for. -/
def number (t : List C) : Option Nat :=
  if t = [] then none
  else t.foldl (fun n c => n.bind fun n => (digit c).map (10 * n + ·)) (some 0)

/-! ## Expansion -/

/-- The value of a variable; `$?` is the status of the last command. -/
def State.value (s : State C W) (name : List C) : List C :=
  if name = [sign '?'] then numeral s.status else s.vars name

/-- What has been put in for a piece of a word. -/
def expansion (quoted : Bool) (value : List C) : List (Mark C) :=
  if quoted then value.map fun c => .char c true
  else value.map fun c => if isBlank c ∨ c = sign '\n' then .split c else .char c false

/-- A word with everything put in.  `sub` runs the substitutions. -/
def expandWord (sub : List C → State C W → List C × State C W) :
    Word C → State C W → List (Mark C) × State C W
  | [], s => ([], s)
  | .char c quoted :: ps, s => ((expandWord sub ps s).1.cons (.char c quoted), (expandWord sub ps s).2)
  | .quotes :: ps, s => ((expandWord sub ps s).1.cons .quotes, (expandWord sub ps s).2)
  | .var name quoted :: ps, s =>
    (expansion quoted (s.value name) ++ (expandWord sub ps s).1, (expandWord sub ps s).2)
  | .sub t quoted :: ps, s =>
    let o := sub t s
    (expansion quoted o.1 ++ (expandWord sub ps o.2).1, (expandWord sub ps o.2).2)

/-- The text of an expanded word that is not split. -/
def text (ms : List (Mark C)) : List C :=
  ms.filterMap fun m => match m with
    | .char c _ => some c
    | .quotes => none
    | .split c => some c

def Mark.isSplit : Mark C → Bool
  | split _ => true
  | _ => false

/-- The fields of an expanded word. -/
def fields (ms : List (Mark C)) : List (List (Mark C)) :=
  (ms.splitOnP Mark.isSplit).filter (· ≠ [])

/-- The field is a pattern: it has a `*` or a `?`, or a `[` and a `]`, outside quotes. -/
def isPattern (f : List (Mark C)) : Bool :=
  f.contains (.char (sign '*') false) || f.contains (.char (sign '?') false) ||
    (f.contains (.char (sign '[') false) && f.contains (.char (sign ']') false))

/-- The words a field stands for. -/
def pathnames (host : Host C W) (w : W) (f : List (Mark C)) : List (List C) :=
  if isPattern f then host.glob f w else [text f]

def expandWords (host : Host C W) (sub : List C → State C W → List C × State C W) :
    List (Word C) → State C W → List (List C) × State C W
  | [], s => ([], s)
  | w :: ws, s =>
    let e := expandWord sub w s
    let r := expandWords host sub ws e.2
    ((fields e.1).flatMap (pathnames host e.2.world) ++ r.1, r.2)

/-! ## Simple commands -/

def Piece.isSub : Piece C → Bool
  | sub _ _ => true
  | _ => false

/-- In an assignment nothing is split. -/
def Piece.unsplit : Piece C → Piece C
  | char c _ => char c true
  | quotes => quotes
  | var name _ => var name true
  | sub t _ => sub t true

def State.assign (s : State C W) (name value : List C) (status : Nat) : State C W :=
  { s with vars := fun n => if n = name then value else s.vars n, status := status }

omit [Alphabet C] in
@[simp]
theorem State.assign_vars_self (s : State C W) (name value : List C) (status : Nat) :
    (s.assign name value status).vars name = value :=
  if_pos rfl

/-- Assignments without a command; the status is that of the last substitution. -/
def assign (sub : List C → State C W → List C × State C W) :
    List (List C × Word C) → State C W → State C W
  | [], s => s
  | (name, value) :: rest, s =>
    let e := expandWord sub (value.map Piece.unsplit) s
    assign sub rest (e.2.assign name (text e.1) (if value.any Piece.isSub then e.2.status else 0))

/-- `[ … ]`, with the words behind the `[`. -/
def test (host : Host C W) (args : List (List C)) (w : W) : Nat :=
  match args with
  | [op, path, close] =>
    if op = word "-f" ∧ close = word "]" then (if host.isFile path w then 0 else 1) else 2
  | [a, op, b, close] =>
    if op = word "-eq" ∧ close = word "]" then
      match number a, number b with
      | some m, some n => if m = n then 0 else 1
      | _, _ => 2
    else 2
  | _ => 2

/-- A command that is the shell's own, with its words: the state behind it and its output. -/
def builtin (host : Host C W) (argv : List (List C)) (s : State C W) : Option (State C W × List C) :=
  match argv with
  | name :: args =>
    if name = word ":" ∨ name = word "true" then some ({ s with status := 0 }, [])
    else if name = word "set" then
      some (if args = [word "-e"] then { s with status := 0, errexit := true } else { s with status := 2 }, [])
    else if name = word "exit" then
      some ({ s with status := (args.head?.bind number).getD s.status, exited := true }, [])
    else if name = word "[" then some ({ s with status := test host args s.world }, [])
    else if name = word "echo" then
      some ({ s with status := 0 }, List.intercalate [sign ' '] args ++ [sign '\n'])
    else none
  | [] => none

/-- A program is called. -/
def external (host : Host C W) (argv : List (List C)) (stdin : List C) (s : State C W) :
    State C W × List C :=
  let r := host.exec argv stdin s.world
  ({ s with status := r.1, world := r.2.2, calls := s.calls ++ [⟨argv, stdin, s.world, r.1, r.2.1⟩] }, r.2.1)

/-- The files the output goes to are created or emptied, one after the other. -/
def openAll (host : Host C W) : List (List C) → W → Option W
  | [], w => some w
  | path :: paths, w => (host.openFile path w).bind (openAll host paths)

/-- The files of the redirections, and whether they are for the output. -/
def targets (sub : List C → State C W → List C × State C W) (s : State C W) :
    List (Redirect C) → List (List C × Bool)
  | [] => []
  | .toFile err target :: rs => (text (expandWord sub target s).1, !err) :: targets sub s rs
  | .errToOut :: rs => targets sub s rs

/-- The output goes to the last file it is sent to. -/
def deliver (host : Host C W) (files : List (List C × Bool)) (r : State C W × List C) :
    State C W × List C :=
  match (files.filter Prod.snd).getLast? with
  | none => r
  | some file => ({ r.1 with world := host.writeFile file.1 r.2 r.1.world }, [])

/-- A redirection that fails ends the shell at those of its own commands that are special. -/
def isSpecial (argv : List (List C)) : Bool :=
  argv.head? = some (word ":") || argv.head? = some (word "set") || argv.head? = some (word "exit")

/-- A command with its words expanded. -/
def runSimple (host : Host C W) (argv : List (List C)) (files : List (List C × Bool)) (stdin : List C)
    (s : State C W) : State C W × List C :=
  match openAll host (files.map Prod.fst) s.world with
  | none => ({ s with status := 1, exited := s.exited || isSpecial argv }, [])
  | some w =>
    deliver host files ((builtin host argv (s.on w)).getD (external host argv stdin (s.on w)))

/-- With `set -e` a command that fails ends the script, unless its status is looked at. -/
def settle (tested : Bool) (r : State C W × List C) : State C W × List C :=
  if r.1.errexit ∧ tested = false ∧ r.1.status ≠ 0 then ({ r.1 with exited := true }, r.2) else r

/-! ## Commands -/

def pipeStatus (pipefail : Bool) (first last : Nat) : Nat :=
  if pipefail ∧ last = 0 then first else last

variable {pipefail : Bool}

theorem pipeStatus_eq_zero {first last : Nat} :
    pipeStatus pipefail first last = 0 ↔ last = 0 ∧ (pipefail = true → first = 0) := by
  unfold pipeStatus
  by_cases hlast : last = 0 <;> cases pipefail <;> simp [hlast]

/-- What a shell of its own leaves of its doings. -/
def State.subshell (s s' : State C W) : State C W := { s with world := s'.world, calls := s'.calls }

section Exec
variable (host : Host C W) (pipefail : Bool) (sub : List C → State C W → List C × State C W)

/-- Runs a command, whose status is looked at or not, on an input. -/
def exec : Command C → (tested : Bool) → (stdin : List C) → State C W → State C W × List C
  | .simple assigns words redirects, tested, stdin, s =>
    let e := expandWords host sub words s
    settle tested <|
      if e.1 = [] then
        match openAll host ((targets sub e.2 redirects).map Prod.fst) e.2.world with
        | none => ({ e.2 with status := 1 }, [])
        | some w => (assign sub assigns (e.2.on w), [])
      else runSimple host e.1 (targets sub e.2 redirects) stdin e.2
  | .pipe c d, tested, stdin, s =>
    let r := exec c tested stdin s
    let r' := exec d tested r.2 (s.subshell r.1)
    settle tested
      ({ s.subshell r'.1 with status := pipeStatus pipefail r.1.status r'.1.status }, r'.2)
  | .and c d, tested, stdin, s =>
    let r := exec c true stdin s
    if r.1.exited ∨ r.1.status ≠ 0 then r
    else let r' := exec d tested stdin r.1; (r'.1, r.2 ++ r'.2)
  | .or c d, tested, stdin, s =>
    let r := exec c true stdin s
    if r.1.exited ∨ r.1.status = 0 then r
    else let r' := exec d tested stdin r.1; (r'.1, r.2 ++ r'.2)
  | .seq c d, tested, stdin, s =>
    let r := exec c tested stdin s
    if r.1.exited then r
    else let r' := exec d tested stdin r.1; (r'.1, r.2 ++ r'.2)

attribute [local simp] exec

end Exec

def dropLineEnds (t : List C) : List C := (t.reverse.dropWhile (· = sign '\n')).reverse

/-- Runs the text of a script; the number bounds the nesting of substitutions. -/
def run (host : Host C W) (pipefail : Bool) : Nat → List C → State C W → State C W × List C
  | 0, _, s => ({ s with status := 2 }, [])
  | n + 1, t, s =>
    match parse t with
    | none => ({ s with status := 2 }, [])
    | some c =>
      exec host pipefail
        (fun t s => let r := run host pipefail n t s
          (dropLineEnds r.2, { s.subshell r.1 with status := r.1.status }))
        c false [] s

/-- The state a shell begins in. -/
def initial (vars : List C → List C) (w : W) : State C W := ⟨vars, 0, false, false, w, []⟩

/-- `sh -c text`, in an environment. -/
def sh (host : Host C W) (pipefail : Bool) (t : List C) (vars : List C → List C) (w : W) :
    State C W × List C :=
  run host pipefail (t.length + 1) t (initial vars w)

/-- The substitutions of a script. -/
def substitute (host : Host C W) (pipefail : Bool) (n : Nat) (t : List C) (s : State C W) :
    List C × State C W :=
  let r := run host pipefail n t s
  (dropLineEnds r.2, { s.subshell r.1 with status := r.1.status })

/-! ## Words without substitutions -/

/-- An expanded word, if there is nothing to run in it. -/
def marks (value : List C → List C) : Word C → List (Mark C)
  | [] => []
  | .char c quoted :: ps => .char c quoted :: marks value ps
  | .quotes :: ps => .quotes :: marks value ps
  | .var name quoted :: ps => expansion quoted (value name) ++ marks value ps
  | .sub _ _ :: ps => marks value ps

/-- There is nothing to run in the word. -/
def plainWord (w : Word C) : Bool := !w.any Piece.isSub

def wordFields (host : Host C W) (s : State C W) (w : Word C) : List (List C) :=
  (fields (marks s.value w)).flatMap (pathnames host s.world)

/-- The words a command is called with. -/
def argvOf (host : Host C W) (s : State C W) (ws : List (Word C)) : List (List C) :=
  ws.flatMap (wordFields host s)

variable {host : Host C W} {pipefail : Bool} {sub : List C → State C W → List C × State C W}
  {s : State C W}

variable {w : Word C}

theorem expandWord_plain (h : plainWord w = true) : expandWord sub w s = (marks s.value w, s) := by
  induction w with
  | nil => rfl
  | cons p ps ih =>
    cases p with
    | sub t quoted => simp [plainWord, Piece.isSub] at h
    | _ =>
      have hps : plainWord ps = true := by simpa [plainWord, Piece.isSub] using h
      simp only [expandWord, ih hps, marks]

variable {ws : List (Word C)}

theorem expandWords_plain (h : ws.all plainWord = true) :
    expandWords host sub ws s = (argvOf host s ws, s) := by
  induction ws with
  | nil => rfl
  | cons w ws ih =>
    simp only [all_cons, Bool.and_eq_true] at h
    simp only [expandWords, expandWord_plain h.1, ih h.2]
    rfl

/-- A word that stands for itself. -/
def literal (name : List C) : Word C := name.map fun c => .char c false

theorem marks_literal (value : List C → List C) (name : List C) :
    marks value (literal name) = name.map fun c => .char c false := by
  induction name with
  | nil => rfl
  | cons c cs ih => simpa [literal, marks] using ih

omit [DecidableEq C] [Alphabet C] in
theorem fields_unsplit {ms : List (Mark C)} (hne : ms ≠ []) (h : ∀ m ∈ ms, m.isSplit = false) :
    fields ms = [ms] := by
  have hsplit : ms.splitOnP Mark.isSplit = [ms] := splitOnP_eq_singleton (by simpa using h)
  simp [fields, hsplit, hne]

omit [DecidableEq C] [Alphabet C] in
theorem text_unquoted (t : List C) : text (t.map fun c => Mark.char c false) = t := by
  induction t with
  | nil => rfl
  | cons c cs ih => exact congrArg (c :: ·) ih

variable {name : List C}

theorem wordFields_literal (hne : name ≠ [])
    (hpattern : isPattern (name.map fun c => Mark.char c false) = false) :
    wordFields host s (literal name) = [name] := by
  have hfields : fields (name.map fun c => Mark.char c false) = [name.map fun c => .char c false] := by
    refine fields_unsplit (by simpa using hne) ?_
    intro m hm
    obtain ⟨c, -, rfl⟩ := mem_map.mp hm
    rfl
  simp [wordFields, marks_literal, hfields, pathnames, hpattern, text_unquoted]

/-! ## Programs -/

/-- The names of the shell's own commands. -/
def builtins : List (List C) := [word ":", word "true", word "set", word "exit", word "[", word "echo"]

def Redirect.plain : Redirect C → Bool
  | toFile _ target => plainWord target
  | errToOut => true

/-- The command calls the program `name`, and has nothing else to run. -/
def Command.isProgram (name : List C) : Command C → Bool
  | simple _ (w :: ws) rs =>
    w = literal name && name ≠ [] && !isPattern (name.map fun c => Mark.char c false) &&
      name ∉ builtins && ws.all plainWord && rs.all Redirect.plain
  | _ => false

/-- The arguments of a simple command. -/
def Command.args (host : Host C W) (s : State C W) : Command C → List (List C)
  | simple _ ws _ => argvOf host s ws.tail
  | _ => []

def Command.words : Command C → List (Word C)
  | simple _ ws _ => ws
  | _ => []

def Command.files (s : State C W) : Command C → List (List C × Bool)
  | simple _ _ rs => targets (fun _ s => ([], s)) s rs
  | _ => []

def Command.redirects : Command C → List (Redirect C)
  | simple _ _ rs => rs
  | _ => []

theorem targets_plain {rs : List (Redirect C)} (h : rs.all Redirect.plain = true) :
    targets sub s rs = targets (fun _ s => ([], s)) s rs := by
  induction rs with
  | nil => rfl
  | cons r rs ih =>
    simp only [all_cons, Bool.and_eq_true] at h
    cases r with
    | errToOut => exact ih h.2
    | toFile err target =>
      have htarget : plainWord target = true := h.1
      simp only [targets, expandWord_plain htarget, ih h.2]

theorem Command.files_eq (s : State C W) (c : Command C) :
    c.files s = targets (fun _ s => ([], s)) s c.redirects := by
  cases c <;> rfl

omit [DecidableEq C] [Alphabet C] in
theorem plainWord_literal (name : List C) : plainWord (literal name) = true := by
  induction name with
  | nil => rfl
  | cons c cs ih => simp [plainWord, literal, Piece.isSub]

variable {args : List (List C)}

theorem builtin_none (h : name ∉ builtins) : builtin host (name :: args) s = none := by
  simp only [builtins, mem_cons, not_mem_nil, or_false, not_or] at h
  obtain ⟨h₁, h₂, h₃, h₄, h₅, h₆⟩ := h
  simp [builtin, h₁, h₂, h₃, h₄, h₅, h₆]

theorem isSpecial_program (h : name ∉ builtins) : isSpecial (name :: args) = false := by
  simp only [builtins, mem_cons, not_mem_nil, or_false, not_or] at h
  obtain ⟨h₁, -, h₃, h₄, -, -⟩ := h
  simp [isSpecial, h₁, h₃, h₄]

variable {tested : Bool} {r : State C W × List C}

omit [DecidableEq C] [Alphabet C] in
theorem settle_of_false (h : r.1.errexit = false) : settle tested r = r := by
  simp [settle, h]

/-- What is left of a command that calls a program with these words: its output files cannot
be opened, or the call is noted and has done what it does. -/
inductive Ran (host : Host C W) (argv : List (List C)) (files : List (List C × Bool)) (stdin : List C)
    (s : State C W) : State C W × List C → Prop where
  | refused (h : openAll host (files.map Prod.fst) s.world = none) :
      Ran host argv files stdin s ({ s with status := 1 }, [])
  | called {w : W} (h : openAll host (files.map Prod.fst) s.world = some w) :
      Ran host argv files stdin s (deliver host files (external host argv stdin (s.on w)))

variable {c : Command C}

/-- **A command that calls a program.** -/
theorem exec_program (host : Host C W) (pipefail : Bool)
    (sub : List C → State C W → List C × State C W) (s : State C W) (h : c.isProgram name = true)
    (tested : Bool) (stdin : List C) :
    ∃ r, exec host pipefail sub c tested stdin s = settle tested r ∧
      Ran host (name :: c.args host s) (c.files s) stdin s r := by
  match c, h with
  | .simple assigns (w :: ws) rs, h =>
    simp only [Command.isProgram, Bool.and_eq_true, decide_eq_true_eq, Bool.not_eq_true'] at h
    obtain ⟨⟨⟨⟨⟨rfl, hne⟩, hpattern⟩, hbuiltin⟩, hws⟩, hrs⟩ := h
    have hargv : expandWords host sub (literal name :: ws) s = (name :: argvOf host s ws, s) := by
      rw [expandWords_plain (by simp [plainWord_literal, hws])]
      simp [argvOf, wordFields_literal hne hpattern]
    refine ⟨runSimple host (name :: argvOf host s ws) (targets sub s rs) stdin s, ?_, ?_⟩
    · simp only [exec, hargv, reduceCtorEq, if_false]
    · rw [targets_plain hrs]
      show Ran host (name :: argvOf host s ws) (targets _ s rs) stdin s _
      cases hopen : openAll host ((targets (fun _ s => ([], s)) s rs).map Prod.fst) s.world with
      | none =>
        have hrun : Ran host (name :: argvOf host s ws) _ stdin s _ := Ran.refused hopen
        simpa [runSimple, hopen, isSpecial_program hbuiltin] using hrun
      | some v =>
        have hrun : Ran host (name :: argvOf host s ws) _ stdin s _ := Ran.called hopen
        simpa [runSimple, hopen, builtin_none hbuiltin] using hrun

namespace Ran
variable {argv : List (List C)} {files : List (List C × Bool)} {stdin : List C} {r : State C W × List C}
omit [DecidableEq C] [Alphabet C]

theorem deliver_fst (host : Host C W) (files : List (List C × Bool)) (r : State C W × List C) :
    (deliver host files r).1.vars = r.1.vars ∧ (deliver host files r).1.status = r.1.status ∧
      (deliver host files r).1.errexit = r.1.errexit ∧ (deliver host files r).1.exited = r.1.exited ∧
      (deliver host files r).1.calls = r.1.calls := by
  unfold deliver
  split <;> exact ⟨rfl, rfl, rfl, rfl, rfl⟩

theorem vars (h : Ran host argv files stdin s r) : r.1.vars = s.vars := by
  cases h with
  | refused => rfl
  | called => exact (deliver_fst _ _ _).1

theorem errexit (h : Ran host argv files stdin s r) : r.1.errexit = s.errexit := by
  cases h with
  | refused => rfl
  | called => exact (deliver_fst _ _ _).2.2.1

theorem exited (h : Ran host argv files stdin s r) : r.1.exited = s.exited := by
  cases h with
  | refused => rfl
  | called => exact (deliver_fst _ _ _).2.2.2.1

theorem calls (h : Ran host argv files stdin s r) : (r.1.status = 1 ∧ r.1.calls = s.calls) ∨
      ∃ call : Call C W, r.1.calls = s.calls ++ [call] ∧ call.argv = argv ∧ call.stdin = stdin ∧
        call.code = r.1.status ∧ openAll host (files.map Prod.fst) s.world = some call.before := by
  cases h with
  | refused => exact Or.inl ⟨rfl, rfl⟩
  | @called w hopen =>
    obtain ⟨-, hstatus, -, -, hcalls⟩ := deliver_fst host files (external host argv stdin (s.on w))
    exact Or.inr ⟨⟨argv, stdin, w, _, _⟩, hcalls, rfl, rfl, hstatus.symm, hopen⟩

/-- **A program that succeeds has been called.** -/
theorem of_ok (h : Ran host argv files stdin s r) (hok : r.1.status = 0) :
    ∃ call : Call C W, r.1.calls = s.calls ++ [call] ∧ call.argv = argv ∧ call.stdin = stdin ∧
      call.code = 0 ∧ openAll host (files.map Prod.fst) s.world = some call.before ∧
      call.output = (external host argv stdin (s.on call.before)).2 ∧
      r = deliver host files (external host argv stdin (s.on call.before)) := by
  cases h with
  | refused => cases hok
  | @called w hopen =>
    obtain ⟨-, hstatus, -, -, hcalls⟩ := deliver_fst host files (external host argv stdin (s.on w))
    exact ⟨⟨argv, stdin, w, _, _⟩, hcalls, rfl, rfl, hstatus.symm.trans hok, hopen, rfl, rfl⟩

/-- A program whose output is not redirected. -/
theorem of_noFiles (h : Ran host argv [] stdin s r) :
    ∃ call : Call C W, r.1.calls = s.calls ++ [call] ∧ call.argv = argv ∧ call.stdin = stdin ∧
      call.code = r.1.status ∧ call.output = r.2 := by
  cases h with
  | refused hopen => cases hopen
  | @called w hopen => exact ⟨⟨argv, stdin, w, _, _⟩, rfl, rfl, rfl, rfl, rfl⟩

end Ran

/-- The exit code of a program that is called with these words, and the world behind it. -/
def outcome (host : Host C W) (argv : List (List C)) (files : List (List C × Bool)) (stdin : List C)
    (w : W) : Nat × W :=
  match openAll host (files.map Prod.fst) w with
  | none => (1, w)
  | some w' =>
    let r := host.exec argv stdin w'
    match (files.filter Prod.snd).getLast? with
    | none => (r.1, r.2.2)
    | some file => (r.1, host.writeFile file.1 r.2.1 r.2.2)

variable {argv : List (List C)} {files : List (List C × Bool)} {stdin : List C}

omit [DecidableEq C] [Alphabet C] in
theorem Ran.outcome (h : Ran host argv files stdin s r) :
    (r.1.status, r.1.world) = Shell.outcome host argv files stdin s.world := by
  rw [Shell.outcome]
  cases h with
  | refused hopen => rw [hopen]
  | called hopen =>
    rw [hopen, deliver, external]
    cases (files.filter Prod.snd).getLast? <;> rfl

variable {s : State C W}

variable {d : Command C}

/-- **A pipeline of two programs.** -/
theorem exec_pipe_programs (host : Host C W) (pipefail : Bool)
    (sub : List C → State C W → List C × State C W) {name' : List C} (hc : c.isProgram name = true)
    (hd : d.isProgram name' = true) (hlive : s.errexit = false) (tested : Bool) (stdin : List C) :
    ∃ r r', Ran host (name :: c.args host s) (c.files s) stdin s r ∧
      Ran host (name' :: d.args host (s.subshell r.1)) (d.files (s.subshell r.1)) r.2 (s.subshell r.1) r' ∧
      exec host pipefail sub (.pipe c d) tested stdin s =
        ({ s.subshell r'.1 with status := pipeStatus pipefail r.1.status r'.1.status }, r'.2) := by
  obtain ⟨r, hr, hran⟩ := exec_program host pipefail sub s hc tested stdin
  rw [settle_of_false (hran.errexit.trans hlive)] at hr
  obtain ⟨r', hr', hran'⟩ := exec_program host pipefail sub (s.subshell r.1) hd tested r.2
  rw [settle_of_false (hran'.errexit.trans hlive)] at hr'
  refine ⟨r, r', hran, hran', ?_⟩
  rw [exec, hr, hr', settle_of_false hlive]

/-! ## Calls are only added -/

omit [DecidableEq C] [Alphabet C] in
theorem calls_settle (tested : Bool) (r : State C W × List C) : (settle tested r).1.calls = r.1.calls := by
  unfold settle
  split <;> rfl

section Grows
variable (hsub : ∀ t s, s.calls <+: (sub t s).2.calls)
include hsub

theorem expandWord_grows (w : Word C) (s : State C W) : s.calls <+: (expandWord sub w s).2.calls := by
  induction w generalizing s with
  | nil => exact prefix_rfl
  | cons p ps ih =>
    cases p with
    | sub t quoted => exact (hsub t s).trans (ih _)
    | _ => exact ih s

theorem expandWords_grows (host : Host C W) (ws : List (Word C)) (s : State C W) :
    s.calls <+: (expandWords host sub ws s).2.calls := by
  induction ws generalizing s with
  | nil => exact prefix_rfl
  | cons w ws ih => exact (expandWord_grows hsub w s).trans (ih _)

theorem assign_grows (as : List (List C × Word C)) (s : State C W) :
    s.calls <+: (assign sub as s).calls := by
  induction as generalizing s with
  | nil => exact prefix_rfl
  | cons a as ih =>
    rw [assign]
    exact (expandWord_grows hsub (a.2.map Piece.unsplit) s).trans (ih (State.assign _ _ _ _))

omit hsub in
theorem builtin_calls (h : builtin host argv s = some r) : r.1.calls = s.calls := by
  unfold builtin at h
  split at h
  · split_ifs at h <;> obtain rfl := Option.some.inj h <;> rfl
  · cases h

omit hsub in
theorem runSimple_grows (argv : List (List C)) (files : List (List C × Bool)) (stdin : List C)
    (s : State C W) : s.calls <+: (runSimple host argv files stdin s).1.calls := by
  unfold runSimple
  split
  · exact prefix_rfl
  · rename_i w hopen
    rw [(Ran.deliver_fst host files _).2.2.2.2]
    cases hbuiltin : builtin host argv (s.on w) with
    | none => exact prefix_append _ _
    | some r =>
      rw [Option.getD_some, builtin_calls hbuiltin]
      exact prefix_rfl

/-- **A command adds calls**, and takes none back. -/
theorem exec_grows (c : Command C) (tested : Bool) (stdin : List C) (s : State C W) :
    s.calls <+: (exec host pipefail sub c tested stdin s).1.calls := by
  induction c generalizing tested stdin s with
  | simple as ws rs =>
    have hwords := expandWords_grows hsub host ws s
    simp only [exec, calls_settle]
    split
    · split
      · exact hwords
      · rename_i w hopen
        exact hwords.trans (assign_grows hsub as ((expandWords host sub ws s).2.on w))
    · exact hwords.trans (runSimple_grows _ _ _ _)
  | pipe c d ihc ihd =>
    simp only [exec, calls_settle]
    exact (ihc tested stdin s).trans (ihd _ _ (s.subshell _))
  | and c d ihc ihd =>
    simp only [exec]
    split
    · exact ihc _ _ _
    · exact (ihc _ _ _).trans (ihd _ _ _)
  | or c d ihc ihd =>
    simp only [exec]
    split
    · exact ihc _ _ _
    · exact (ihc _ _ _).trans (ihd _ _ _)
  | seq c d ihc ihd =>
    simp only [exec]
    split
    · exact ihc _ _ _
    · exact (ihc _ _ _).trans (ihd _ _ _)

end Grows

theorem run_grows (n : Nat) (t : List C) (s : State C W) :
    s.calls <+: (run host pipefail n t s).1.calls := by
  induction n generalizing t s with
  | zero => exact prefix_rfl
  | succ n ih =>
    rw [run]
    split
    · exact prefix_rfl
    · exact exec_grows (fun t s => ih t s) _ _ _ _

theorem substitute_grows (n : Nat) (t : List C) (s : State C W) :
    s.calls <+: (substitute host pipefail n t s).2.calls := run_grows n t s

/-! ## Flags -/

/-- `set -e` is as it was, and so is whether the shell has ended. -/
def State.SameFlags (s s' : State C W) : Prop := s'.errexit = s.errexit ∧ s'.exited = s.exited

/-- Neither `set -e` nor an end that is not an error. -/
def State.Live (s : State C W) : Prop := s.errexit = false ∧ (s.exited = true → s.status ≠ 0)

/-- The word, if it stands for itself. -/
def literalOf : Word C → Option (List C)
  | [] => some []
  | .char c false :: ps => (literalOf ps).map (c :: ·)
  | _ => none

/-- Commands that neither end the shell nor set its options. -/
def Command.noExit : Command C → Bool
  | simple _ [] _ => true
  | simple _ (w :: _) _ =>
    match literalOf w with
    | some name => name ≠ [] && !isPattern (name.map fun c => Mark.char c false) &&
        name ≠ word "exit" && name ≠ word "set"
    | none => false
  | pipe c d | and c d | or c d | seq c d => c.noExit && d.noExit

omit [DecidableEq C] [Alphabet C] in
theorem literalOf_eq (h : literalOf w = some name) : w = literal name := by
  induction w generalizing name with
  | nil =>
    obtain rfl : [] = name := Option.some.inj h
    rfl
  | cons p ps ih =>
    cases p with
    | char c quoted =>
      cases quoted with
      | true => cases h
      | false =>
        obtain ⟨rest, hrest, rfl⟩ := Option.map_eq_some_iff.mp h
        rw [ih hrest]
        rfl
    | _ => cases h

section Flags
variable (hsub : ∀ t s, State.SameFlags s (sub t s).2)
include hsub

theorem expandWord_flags (w : Word C) (s : State C W) : s.SameFlags (expandWord sub w s).2 := by
  induction w generalizing s with
  | nil => exact ⟨rfl, rfl⟩
  | cons p ps ih =>
    cases p with
    | sub t quoted =>
      have hfirst := hsub t s
      have hrest := ih (sub t s).2
      exact ⟨hrest.1.trans hfirst.1, hrest.2.trans hfirst.2⟩
    | _ => exact ih s

theorem expandWords_flags (host : Host C W) (ws : List (Word C)) (s : State C W) :
    s.SameFlags (expandWords host sub ws s).2 := by
  induction ws generalizing s with
  | nil => exact ⟨rfl, rfl⟩
  | cons w ws ih =>
    have hfirst := expandWord_flags hsub w s
    have hrest := ih (expandWord sub w s).2
    exact ⟨hrest.1.trans hfirst.1, hrest.2.trans hfirst.2⟩

theorem assign_flags (as : List (List C × Word C)) (s : State C W) : s.SameFlags (assign sub as s) := by
  induction as generalizing s with
  | nil => exact ⟨rfl, rfl⟩
  | cons a as ih =>
    have hfirst := expandWord_flags hsub (a.2.map Piece.unsplit) s
    rw [assign]
    exact ⟨(ih (State.assign _ _ _ _)).1.trans hfirst.1, (ih (State.assign _ _ _ _)).2.trans hfirst.2⟩

omit hsub in
theorem builtin_flags (hexit : name ≠ word "exit") (hset : name ≠ word "set")
    (h : builtin host (name :: args) s = some r) : s.SameFlags r.1 := by
  simp only [builtin, hexit, hset, if_false] at h
  split_ifs at h <;> obtain rfl := Option.some.inj h <;> exact ⟨rfl, rfl⟩

omit hsub in
/-- A simple command that neither ends the shell nor sets its options. -/
theorem runSimple_live (hexit : name ≠ word "exit") (hset : name ≠ word "set")
    (hlive : s.errexit = false)
    (hexited : s.exited = false) : (runSimple host (name :: args) files stdin s).1.Live := by
  unfold runSimple
  split
  · exact ⟨hlive, fun _ => Nat.one_ne_zero⟩
  · rename_i w hopen
    obtain ⟨-, hstatus, herrexit, hexit', -⟩ := Ran.deliver_fst host files
      ((builtin host (name :: args) (s.on w)).getD (external host (name :: args) stdin (s.on w)))
    have hflags : s.SameFlags ((builtin host (name :: args) (s.on w)).getD
        (external host (name :: args) stdin (s.on w))).1 := by
      cases hbuiltin : builtin host (name :: args) (s.on w) with
      | none => exact ⟨rfl, rfl⟩
      | some r =>
        obtain ⟨h₁, h₂⟩ := builtin_flags hexit hset hbuiltin
        exact ⟨h₁, h₂⟩
    refine ⟨herrexit.trans (hflags.1.trans hlive), ?_⟩
    rw [hexit', hflags.2, hexited]
    exact fun habsurd => absurd habsurd (by decide)

/-- **A command without `exit`** leaves the shell going, unless it fails. -/
theorem exec_live (c : Command C) (hc : c.noExit = true) (tested : Bool) (stdin : List C)
    (s : State C W) (hlive : s.errexit = false) (hexited : s.exited = false) :
    (exec host pipefail sub c tested stdin s).1.Live := by
  induction c generalizing tested stdin s with
  | simple as ws rs =>
    have hsettled : ∀ {r : State C W × List C}, r.1.Live → (settle tested r).1.Live := by
      intro r hr
      rw [settle_of_false hr.1]
      exact hr
    obtain ⟨herrexit, hexited'⟩ := expandWords_flags hsub host ws s
    rw [exec]
    refine hsettled ?_
    split
    · split
      · refine ⟨herrexit.trans hlive, fun _ => Nat.one_ne_zero⟩
      · rename_i w hopen
        obtain ⟨h₁, h₂⟩ := assign_flags hsub as ((expandWords host sub ws s).2.on w)
        refine ⟨h₁.trans (herrexit.trans hlive), ?_⟩
        rw [h₂]
        show (expandWords host sub ws s).2.exited = true → _
        rw [hexited', hexited]
        exact fun habsurd => absurd habsurd (by decide)
    · rename_i hargv
      cases ws with
      | nil => exact absurd rfl hargv
      | cons w ws =>
        simp only [Command.noExit] at hc
        split at hc
        · rename_i name hname
          obtain rfl := literalOf_eq hname
          simp only [Bool.and_eq_true, decide_eq_true_eq, Bool.not_eq_true'] at hc
          obtain ⟨⟨⟨hne, hpattern⟩, hexit⟩, hset⟩ := hc
          have hhead : (expandWords host sub (literal name :: ws) s).1 =
              name :: (expandWords host sub ws s).1 := by
            simp only [expandWords, expandWord_plain (plainWord_literal name)]
            have hfields : wordFields host s (literal name) = [name] :=
              wordFields_literal hne hpattern
            rw [wordFields] at hfields
            rw [hfields]
            rfl
          rw [hhead]
          exact runSimple_live hexit hset (herrexit.trans hlive) (hexited'.trans hexited)
        · cases hc
  | pipe c d ihc ihd =>
    rw [exec, settle_of_false hlive]
    exact ⟨hlive, fun h => absurd h (by rw [State.subshell, hexited]; decide)⟩
  | and c d ihc ihd =>
    simp only [Command.noExit, Bool.and_eq_true] at hc
    have hfirst := ihc hc.1 true stdin s hlive hexited
    simp only [exec]
    split
    · exact hfirst
    · rename_i h
      exact ihd hc.2 _ _ _ hfirst.1 (by simpa using (not_or.mp h).1)
  | or c d ihc ihd =>
    simp only [Command.noExit, Bool.and_eq_true] at hc
    have hfirst := ihc hc.1 true stdin s hlive hexited
    simp only [exec]
    split
    · exact hfirst
    · rename_i h
      exact ihd hc.2 _ _ _ hfirst.1 (by simpa using (not_or.mp h).1)
  | seq c d ihc ihd =>
    simp only [Command.noExit, Bool.and_eq_true] at hc
    have hfirst := ihc hc.1 tested stdin s hlive hexited
    simp only [exec]
    split
    · exact hfirst
    · rename_i h
      exact ihd hc.2 _ _ _ hfirst.1 (by simpa using h)

end Flags

/-! ## Variables -/

def Command.assigned : Command C → List (List C)
  | simple as _ _ => as.map Prod.fst
  | pipe _ _ => []
  | and c d | or c d | seq c d => c.assigned ++ d.assigned

variable {as : List (List C × Word C)}

section Vars
variable (hsub : ∀ t s, (sub t s).2.vars = s.vars)
include hsub

theorem expandWord_vars (w : Word C) (s : State C W) : (expandWord sub w s).2.vars = s.vars := by
  induction w generalizing s with
  | nil => rfl
  | cons p ps ih =>
    cases p with
    | sub t quoted => exact (ih _).trans (hsub t s)
    | _ => exact ih s

theorem expandWords_vars (host : Host C W) (ws : List (Word C)) (s : State C W) :
    (expandWords host sub ws s).2.vars = s.vars := by
  induction ws generalizing s with
  | nil => rfl
  | cons w ws ih => exact (ih _).trans (expandWord_vars hsub w s)

theorem assign_vars {n : List C} (hn : n ∉ as.map Prod.fst)
    (s : State C W) : (assign sub as s).vars n = s.vars n := by
  induction as generalizing s with
  | nil => rfl
  | cons a as ih =>
    rw [map_cons, mem_cons, not_or] at hn
    rw [assign, ih hn.2, State.assign]
    show (if n = a.1 then _ else _) = _
    rw [if_neg hn.1, expandWord_vars hsub]

omit hsub in
theorem runSimple_vars (argv : List (List C)) (files : List (List C × Bool)) (stdin : List C)
    (s : State C W) : (runSimple host argv files stdin s).1.vars = s.vars := by
  unfold runSimple
  split
  · rfl
  · rename_i w hopen
    rw [(Ran.deliver_fst host files _).1]
    cases hbuiltin : builtin host argv (s.on w) with
    | none => rfl
    | some r =>
      unfold builtin at hbuiltin
      split at hbuiltin
      · split_ifs at hbuiltin <;> obtain rfl := Option.some.inj hbuiltin <;> rfl
      · cases hbuiltin

omit [DecidableEq C] [Alphabet C] hsub in
theorem vars_settle (tested : Bool) (r : State C W × List C) : (settle tested r).1.vars = r.1.vars := by
  unfold settle
  split <;> rfl

/-- **A command changes no variable but those it assigns.** -/
theorem exec_vars (c : Command C) {n : List C} (hn : n ∉ c.assigned) (tested : Bool) (stdin : List C)
    (s : State C W) : (exec host pipefail sub c tested stdin s).1.vars n = s.vars n := by
  induction c generalizing tested stdin s with
  | simple as ws rs =>
    have hwords := expandWords_vars hsub host ws s
    simp only [exec, vars_settle]
    split
    · split
      · exact congrFun hwords n
      · exact (assign_vars hsub hn _).trans (congrFun hwords n)
    · rw [runSimple_vars]
      exact congrFun hwords n
  | pipe c d ihc ihd =>
    simp only [exec, vars_settle]
    rfl
  | and c d ihc ihd =>
    rw [Command.assigned, mem_append, not_or] at hn
    simp only [exec]
    split
    · exact ihc hn.1 _ _ _
    · exact (ihd hn.2 _ _ _).trans (ihc hn.1 _ _ _)
  | or c d ihc ihd =>
    rw [Command.assigned, mem_append, not_or] at hn
    simp only [exec]
    split
    · exact ihc hn.1 _ _ _
    · exact (ihd hn.2 _ _ _).trans (ihc hn.1 _ _ _)
  | seq c d ihc ihd =>
    rw [Command.assigned, mem_append, not_or] at hn
    simp only [exec]
    split
    · exact ihc hn.1 _ _ _
    · exact (ihd hn.2 _ _ _).trans (ihc hn.1 _ _ _)

end Vars

omit [DecidableEq C] [Alphabet C] in
theorem State.sameFlags_subshell (s s' : State C W) (status : Nat) :
    s.SameFlags { s.subshell s' with status := status } := ⟨rfl, rfl⟩

theorem substitute_flags (n : Nat) (t : List C) (s : State C W) :
    s.SameFlags (substitute host pipefail n t s).2 := s.sameFlags_subshell _ _

/-! ## Commands that succeed -/

section Succeeds
variable {c d : Command C} {tested : Bool} {stdin : List C}
variable (hsub : ∀ t s, State.SameFlags s (sub t s).2) (hlive : s.errexit = false)
  (hexited : s.exited = false) (hc : c.noExit = true)
include hsub hlive hexited hc

/-- **`c && d` succeeds**: both do. -/
theorem exec_and_ok (h : (exec host pipefail sub (.and c d) tested stdin s).1.status = 0) :
    (exec host pipefail sub c true stdin s).1.status = 0 ∧
      (exec host pipefail sub c true stdin s).1.errexit = false ∧
      (exec host pipefail sub c true stdin s).1.exited = false ∧
      (exec host pipefail sub (.and c d) tested stdin s).1 =
        (exec host pipefail sub d tested stdin (exec host pipefail sub c true stdin s).1).1 := by
  have hfirst : (exec host pipefail sub c true stdin s).1.Live :=
    exec_live hsub c hc true stdin s hlive hexited
  rw [exec] at h ⊢
  by_cases hstop : (exec host pipefail sub c true stdin s).1.exited = true ∨
      (exec host pipefail sub c true stdin s).1.status ≠ 0
  · simp only [hstop, if_true] at h
    exact absurd h (hstop.elim hfirst.2 id)
  · rw [not_or, not_not] at hstop
    refine ⟨hstop.2, hfirst.1, by simpa using hstop.1, ?_⟩
    simp [hstop.1, hstop.2]

/-- **`c; d`**: the status is that of `d`, unless `c` has ended the shell. -/
theorem exec_seq_ok (h : (exec host pipefail sub (.seq c d) tested stdin s).1.status = 0) :
    (exec host pipefail sub c tested stdin s).1.errexit = false ∧
      (exec host pipefail sub c tested stdin s).1.exited = false ∧
      (exec host pipefail sub (.seq c d) tested stdin s).1 =
        (exec host pipefail sub d tested stdin (exec host pipefail sub c tested stdin s).1).1 := by
  have hfirst : (exec host pipefail sub c tested stdin s).1.Live :=
    exec_live hsub c hc tested stdin s hlive hexited
  rw [exec] at h ⊢
  by_cases hstop : (exec host pipefail sub c tested stdin s).1.exited = true
  · simp only [hstop, if_true] at h
    exact absurd h (hfirst.2 hstop)
  · exact ⟨hfirst.1, by simpa using hstop, by simp [hstop]⟩

end Succeeds

/-- The programs of commands joined by `&&`. -/
def Command.chained : Command C → List (List C)
  | simple as (w :: ws) rs =>
    ((literalOf w).filter fun name => (simple as (w :: ws) rs).isProgram name).toList
  | and c d => c.chained ++ d.chained
  | _ => []

/-- **Commands joined by `&&` succeed**: all their programs have been called and succeeded. -/
theorem exec_chained_ok (hsub : ∀ t s, State.SameFlags s (sub t s).2)
    (hgrows : ∀ t s, s.calls <+: (sub t s).2.calls) (hc : c.noExit = true)
    (hlive : s.errexit = false) (hexited : s.exited = false)
    (hok : (exec host pipefail sub c tested stdin s).1.status = 0) :
    ∀ name ∈ c.chained, ∃ call ∈ (exec host pipefail sub c tested stdin s).1.calls,
      call.argv.head? = some name ∧ call.code = 0 := by
  induction c generalizing tested stdin s with
  | simple as ws rs =>
    intro name hname
    cases ws with
    | nil => exact absurd hname not_mem_nil
    | cons w ws =>
      obtain ⟨-, hprogram⟩ := Option.filter_eq_some_iff.mp (Option.mem_toList.mp hname)
      obtain ⟨r, hr, hran⟩ := exec_program host pipefail sub s hprogram tested stdin
      rw [settle_of_false (hran.errexit.trans hlive)] at hr
      rw [hr] at hok ⊢
      obtain ⟨call, hcalls, hargv, -, hcode, -⟩ := hran.of_ok hok
      refine ⟨call, ?_, by rw [hargv]; rfl, hcode⟩
      rw [hcalls]
      exact mem_append_right _ (mem_singleton_self _)
  | and c d ihc ihd =>
    intro name hname
    simp only [Command.noExit, Bool.and_eq_true] at hc
    obtain ⟨hfirst, hlive', hexited', heq⟩ := exec_and_ok hsub hlive hexited hc.1 hok
    rw [heq] at hok ⊢
    rcases mem_append.mp hname with hname | hname
    · obtain ⟨call, hmem, hcall⟩ := ihc hc.1 hlive hexited hfirst name hname
      exact ⟨call, (exec_grows hgrows d tested stdin _).subset hmem, hcall⟩
    · exact ihd hc.2 hlive' hexited' hok name hname
  | pipe c d ihc ihd => exact fun name hname => absurd hname not_mem_nil
  | or c d ihc ihd => exact fun name hname => absurd hname not_mem_nil
  | seq c d ihc ihd => exact fun name hname => absurd hname not_mem_nil

/-- Nothing but commands of the shell's own. -/
def Command.isOwn : Command C → Bool
  | simple _ (w :: ws) rs =>
    (literalOf w).any (fun name => name ∈ builtins && !isPattern (name.map fun c => Mark.char c false)) &&
      ws.all plainWord && rs = []
  | simple _ [] _ => false
  | pipe c d | and c d | or c d | seq c d => c.isOwn && d.isOwn

theorem builtin_isSome (host : Host C W) (s : State C W) (args : List (List C))
    (h : name ∈ builtins) : (builtin host (name :: args) s).isSome = true := by
  simp only [builtins, mem_cons, not_mem_nil, or_false] at h
  by_contra hnone
  have hbuiltin : builtin host (name :: args) s = none := by simpa using hnone
  rw [builtin] at hbuiltin
  split_ifs at hbuiltin with h₁ h₂ h₃ h₄ h₅
  rw [not_or] at h₁
  rcases h with h | h | h | h | h | h
  · exact h₁.1 h
  · exact h₁.2 h
  · exact h₂ h
  · exact h₃ h
  · exact h₄ h
  · exact h₅ h

/-- **The shell's own commands call no program.** -/
theorem exec_own (hc : c.isOwn = true) (tested : Bool) (stdin : List C) (s : State C W) :
    (exec host pipefail sub c tested stdin s).1.calls = s.calls := by
  induction c generalizing tested stdin s with
  | simple as ws rs =>
    cases ws with
    | nil => cases hc
    | cons w ws =>
      simp only [Command.isOwn, Bool.and_eq_true, Option.any_eq_true, decide_eq_true_eq,
        Bool.not_eq_true'] at hc
      obtain ⟨⟨⟨name, hname, hbuiltin, hpattern⟩, hws⟩, rfl⟩ := hc
      obtain rfl := literalOf_eq hname
      have hne : name ≠ [] := by
        rintro rfl
        exact absurd hbuiltin (by simp [builtins, word])
      have hargv : expandWords host sub (literal name :: ws) s = (name :: argvOf host s ws, s) := by
        rw [expandWords_plain (by simp [plainWord_literal, hws])]
        simp [argvOf, wordFields_literal hne hpattern]
      obtain ⟨r, hr⟩ := Option.isSome_iff_exists.mp
        (builtin_isSome host (s.on s.world) (argvOf host s ws) hbuiltin)
      simp only [exec, hargv, reduceCtorEq, if_false, calls_settle, targets, runSimple, map_nil,
        openAll, hr, Option.getD_some]
      exact (Ran.deliver_fst _ _ _).2.2.2.2.trans (builtin_calls hr)
  | pipe c d ihc ihd =>
    simp only [Command.isOwn, Bool.and_eq_true] at hc
    simp only [exec, calls_settle, State.subshell]
    rw [ihd hc.2, ihc hc.1]
  | and c d ihc ihd =>
    simp only [Command.isOwn, Bool.and_eq_true] at hc
    simp only [exec]
    split
    · exact ihc hc.1 _ _ _
    · exact (ihd hc.2 _ _ _).trans (ihc hc.1 _ _ _)
  | or c d ihc ihd =>
    simp only [Command.isOwn, Bool.and_eq_true] at hc
    simp only [exec]
    split
    · exact ihc hc.1 _ _ _
    · exact (ihd hc.2 _ _ _).trans (ihc hc.1 _ _ _)
  | seq c d ihc ihd =>
    simp only [Command.isOwn, Bool.and_eq_true] at hc
    simp only [exec]
    split
    · exact ihc hc.1 _ _ _
    · exact (ihd hc.2 _ _ _).trans (ihc hc.1 _ _ _)

theorem exec_seq_own (hd : d.isOwn = true) (tested : Bool) (stdin : List C) (s : State C W) :
    (exec host pipefail sub (.seq c d) tested stdin s).1.calls =
      (exec host pipefail sub c tested stdin s).1.calls := by
  simp only [exec]
  split
  · rfl
  · exact exec_own hd _ _ _

/-! ## Numerals -/

theorem digit_digitChar {d : Nat} (hd : d < 10) : digit (sign (C := C) d.digitChar) = some d := by
  have hascii : ∀ e < 10, (Nat.digitChar e).toNat < 128 := by decide
  have hcongr : digit (sign (C := C) d.digitChar) =
      (List.range 10).find? fun e => d.digitChar = e.digitChar := by
    refine List.find?_congr fun e he => ?_
    have he' : e < 10 := mem_range.mp he
    refine decide_eq_decide.mpr ⟨?_, congrArg sign⟩
    exact Alphabet.sign_inj _ _ (hascii d hd) (hascii e he')
  rw [hcongr]
  interval_cases d <;> rfl

/-- **A numeral is read as its number.** -/
theorem number_numeral (n : Nat) : number (numeral n : List C) = some n := by
  have hfold : ∀ n : Nat, (numeral n : List C).foldl
      (fun n c => n.bind fun n => (digit c).map (10 * n + ·)) (some 0) = some n := by
    intro n
    induction n using Nat.strongRecOn with
    | ind n ih =>
      by_cases hn : n < 10
      · simp [numeral, Nat.toDigits_of_lt_base hn, digit_digitChar hn]
      · have hdigits : Nat.toDigits 10 n = Nat.toDigits 10 (n / 10) ++ [(n % 10).digitChar] :=
          Nat.toDigits_of_base_le (by decide) (by omega)
        have hlast : digit (sign (C := C) (n % 10).digitChar) = some (n % 10) :=
          digit_digitChar (Nat.mod_lt _ (by decide))
        have hrest := ih (n / 10) (by omega)
        rw [numeral] at hrest ⊢
        rw [hdigits, map_append, foldl_append, hrest]
        simp [hlast]
        omega
  have hne : (numeral n : List C) ≠ [] := by simp [numeral, Nat.toDigits_ne_nil]
  rw [number, if_neg hne, hfold]

variable {t : List C}

/-- A word that stands for itself is among the arguments. -/
theorem mem_args (host : Host C W) (s : State C W) (h : literal t ∈ c.words.tail) (hne : t ≠ [])
    (hpattern : isPattern (t.map fun c => Mark.char c false) = false) : t ∈ c.args host s := by
  cases c with
  | simple as ws rs =>
    refine mem_flatMap.mpr ⟨literal t, h, ?_⟩
    rw [wordFields_literal hne hpattern]
    exact mem_singleton_self _
  | _ => exact absurd h not_mem_nil

/-! ## Values in quotes -/

omit [DecidableEq C] [Alphabet C] in
@[simp]
theorem text_append (ms ms' : List (Mark C)) : text (ms ++ ms') = text ms ++ text ms' :=
  filterMap_append

omit [DecidableEq C] [Alphabet C] in
theorem text_quoted (value : List C) : text (value.map fun c => Mark.char c true) = value := by
  induction value with
  | nil => rfl
  | cons c cs ih => exact congrArg (c :: ·) ih

theorem marks_quoted (value : List C → List C) (t : List C) :
    marks value (t.map fun c => .char c true) = t.map fun c => Mark.char c true := by
  induction t with
  | nil => rfl
  | cons c cs ih => exact congrArg (Mark.char c true :: ·) ih

theorem text_expansion (value : List C) : text (expansion true value) = value := text_quoted value

/-- **A quoted variable is one word**, whatever its value is. -/
theorem wordFields_quotedVar : wordFields host s [.quotes, .var name true] = [s.value name] := by
  have hmarks : marks s.value [.quotes, .var name true] =
      Mark.quotes :: (s.value name).map fun c => .char c true := by
    simp [marks, expansion]
  have hfields : fields (Mark.quotes :: (s.value name).map fun c => .char c true) =
      [Mark.quotes :: (s.value name).map fun c => .char c true] := by
    refine fields_unsplit (cons_ne_nil _ _) ?_
    intro m hm
    rcases mem_cons.mp hm with rfl | hm
    · rfl
    · obtain ⟨c, -, rfl⟩ := mem_map.mp hm
      rfl
  have hpattern : isPattern (Mark.quotes :: (s.value name).map fun c => .char c true) = false := by
    simp [isPattern]
  rw [wordFields, hmarks, hfields]
  simp only [flatMap_cons, flatMap_nil, append_nil, pathnames, hpattern]
  exact congrArg (fun t => [t]) (text_quoted (s.value name))

theorem wordFields_quoted (t : List C) :
    wordFields host s (.quotes :: t.map fun c => .char c true) = [t] := by
  have hmarks : marks s.value (.quotes :: t.map fun c => .char c true) =
      Mark.quotes :: t.map fun c => .char c true := by
    rw [marks, marks_quoted]
  have hfields : fields (Mark.quotes :: t.map fun c => .char c true) =
      [Mark.quotes :: t.map fun c => .char c true] := by
    refine fields_unsplit (cons_ne_nil _ _) ?_
    intro m hm
    rcases mem_cons.mp hm with rfl | hm
    · rfl
    · obtain ⟨c, -, rfl⟩ := mem_map.mp hm
      rfl
  have hpattern : isPattern (Mark.quotes :: t.map fun c => .char c true) = false := by
    simp [isPattern]
  rw [wordFields, hmarks, hfields]
  simp only [flatMap_cons, flatMap_nil, append_nil, pathnames, hpattern]
  exact congrArg (fun t => [t]) (text_quoted t)

/-- A pattern stands for what the system finds. -/
theorem wordFields_pattern (hpattern : isPattern (t.map fun c => Mark.char c false) = true) :
    wordFields host s (literal t) = host.glob (t.map fun c => .char c false) s.world := by
  have hne : t ≠ [] := by
    rintro rfl
    cases hpattern
  have hfields : fields (t.map fun c => Mark.char c false) = [t.map fun c => .char c false] := by
    refine fields_unsplit (by simpa using hne) ?_
    intro m hm
    obtain ⟨c, -, rfl⟩ := mem_map.mp hm
    rfl
  simp [wordFields, marks_literal, hfields, pathnames, hpattern]

theorem Command.args_eq (h : c.words = w :: ws) : c.args host s = argvOf host s ws := by
  cases c with
  | simple as words rs =>
    obtain rfl : words = w :: ws := h
    rfl
  | _ => cases h

/-- Output to a file that is named. -/
theorem Command.files_literal {err : Bool}
    (h : c.redirects = [.toFile err (literal t)]) : c.files s = [(t, !err)] := by
  rw [c.files_eq, h]
  simp only [targets, expandWord_plain (plainWord_literal t), marks_literal, text_unquoted]

/-! ## The status of the last command -/

/-- `name=$?`. -/
theorem exec_keepStatus (hlive : s.errexit = false) :
    exec host pipefail sub (.simple [(name, [.var [sign '?'] false])] [] []) tested stdin s =
      (s.assign name (numeral s.status) 0, []) := by
  have htext : text (expansion true (s.value [sign '?'])) = numeral s.status := by
    rw [text_expansion, State.value, if_pos rfl]
  have hassign : assign sub [(name, [.var [sign '?'] false])] s = s.assign name (numeral s.status) 0 := by
    simp only [assign, map_cons, map_nil, Piece.unsplit, expandWord, append_nil, htext,
      any_cons, any_nil, Piece.isSub, Bool.or_self, Bool.false_eq_true, if_false]
  simp only [exec, expandWords, if_true, targets, map_nil, openAll]
  show settle tested (assign sub _ (s.on s.world), _) = _
  rw [show s.on s.world = s from rfl, hassign, settle_of_false hlive]

/-- `[ "$name" -eq 0 ]`, where the variable has a number. -/
theorem exec_testZero {n : Nat} (hlive : s.errexit = false) (hname : name ≠ [sign '?'])
    (hvalue : s.vars name = numeral n) :
    (exec host pipefail sub (.simple [] [literal (word "["), [.quotes, .var name true],
      literal (word "-eq"), literal (word "0"), literal (word "]")] []) tested stdin s).1 =
      { s with status := if n = 0 then 0 else 1 } := by
  have hliteral : ∀ t ∈ ["[", "-eq", "0", "]"],
      wordFields host s (literal (word t)) = [word (C := C) t] := by
    intro t ht
    refine wordFields_literal ?_ ?_ <;> fin_cases ht <;>
      simp (disch := decide) [isPattern, word, sign_eq_iff]
  have hname' : wordFields host s [.quotes, .var name true] = [numeral n] := by
    rw [wordFields_quotedVar, State.value, if_neg hname, hvalue]
  have hargv : expandWords host sub [literal (word "["), [.quotes, .var name true],
      literal (word "-eq"), literal (word "0"), literal (word "]")] s =
      ([word "[", numeral n, word "-eq", word "0", word "]"], s) := by
    rw [expandWords_plain (by simp [plainWord_literal]; rfl)]
    simp [argvOf, hliteral, hname']
  have hzero : number (word "0" : List C) = some 0 := number_numeral 0
  have hne : ∀ t ∈ [":", "true", "set", "exit"], word (C := C) "[" ≠ word t := by
    intro t ht
    fin_cases ht <;> simp (disch := decide) [word, sign_eq_iff]
  simp only [mem_cons, not_mem_nil, or_false, forall_eq_or_imp, forall_eq] at hne
  simp [exec, hargv, targets, runSimple, openAll, deliver, builtin, hne, test, number_numeral, hzero]
  exact congrArg Prod.fst (settle_of_false hlive)

/-! ## Substitutions -/

/-- `name=$(text)`: the status is that of the text. -/
theorem exec_assignSub {quoted : Bool} (hlive : (sub t s).2.errexit = false) :
    exec host pipefail sub (.simple [(name, [.sub t quoted])] [] []) tested stdin s =
      ((sub t s).2.assign name (sub t s).1 (sub t s).2.status, []) := by
  have hassign : assign sub [(name, [.sub t quoted])] s =
      (sub t s).2.assign name (sub t s).1 (sub t s).2.status := by
    simp only [assign, map_cons, map_nil, Piece.unsplit, expandWord, append_nil,
      text_expansion, any_cons, any_nil, Piece.isSub, Bool.or_false, if_true]
  simp only [exec, expandWords, if_true, targets, map_nil, openAll]
  show settle tested (assign sub _ (s.on s.world), _) = _
  rw [show s.on s.world = s from rfl, hassign, settle_of_false hlive]

/-! ## Words that are always the same -/

def Piece.isText : Piece C → Bool
  | char _ _ | quotes => true
  | _ => false

def wordText (w : Word C) : List C :=
  w.filterMap fun p => match p with
    | .char c _ => some c
    | _ => none

/-- Nothing is filled in, and the word is no pattern. -/
def isStatic (w : Word C) : Bool :=
  w ≠ [] && w.all Piece.isText && !isPattern (marks (fun _ => []) w)

/-- No character of a pattern outside quotes. -/
def Piece.isSafe : Piece C → Bool
  | char c quoted => quoted || (c ≠ sign '*' && c ≠ sign '?' && c ≠ sign ']')
  | quotes => true
  | _ => false

section Static
variable {w : Word C} {ws : List (Word C)}

theorem marks_text (value : List C → List C) (h : w.all Piece.isText = true) :
    marks value w = marks (fun _ => []) w ∧ text (marks value w) = wordText w ∧
      (∀ m ∈ marks value w, m.isSplit = false) ∧ (marks value w = [] ↔ w = []) := by
  induction w with
  | nil => exact ⟨rfl, rfl, fun m hm => absurd hm not_mem_nil, iff_of_true rfl rfl⟩
  | cons p ps ih =>
    rw [all_cons, Bool.and_eq_true] at h
    obtain ⟨heq, htext, hsplit, -⟩ := ih h.2
    cases p with
    | char c quoted =>
      refine ⟨congrArg _ heq, congrArg (c :: ·) htext, ?_, by simp [marks]⟩
      intro m hm
      rcases mem_cons.mp hm with rfl | hm
      · rfl
      · exact hsplit m hm
    | quotes =>
      refine ⟨congrArg _ heq, htext, ?_, by simp [marks]⟩
      intro m hm
      rcases mem_cons.mp hm with rfl | hm
      · rfl
      · exact hsplit m hm
    | var name quoted => cases h.1
    | sub t quoted => cases h.1

omit [DecidableEq C] [Alphabet C] in
theorem plainWord_text (h : w.all Piece.isText = true) : plainWord w = true := by
  rw [plainWord, Bool.not_eq_true', any_eq_false]
  intro p hp
  have htext := all_eq_true.mp h p hp
  cases p <;> first | exact Bool.false_ne_true | cases htext

theorem isStatic_safe (hne : w ≠ []) (h : w.all Piece.isSafe = true) : isStatic w = true := by
  have htext : w.all Piece.isText = true := by
    rw [all_eq_true] at h ⊢
    intro p hp
    have hsafe := h p hp
    cases p <;> first | rfl | cases hsafe
  have hmem : ∀ c, c = sign '*' ∨ c = sign '?' ∨ c = sign ']' →
      Mark.char c false ∉ marks (fun _ => []) w := by
    intro c hc
    clear hne
    induction w with
    | nil => exact not_mem_nil
    | cons p ps ih =>
      simp only [all_cons, Bool.and_eq_true] at h htext
      have hrest := ih h.2 htext.2
      cases p with
      | char d quoted =>
        rw [marks, mem_cons, not_or]
        refine ⟨?_, hrest⟩
        intro heq
        injection heq with hd hquoted
        subst hd hquoted
        simp only [Piece.isSafe, Bool.false_or, Bool.and_eq_true, decide_eq_true_eq, ne_eq] at h
        rcases hc with rfl | rfl | rfl
        · exact h.1.1.1 rfl
        · exact h.1.1.2 rfl
        · exact h.1.2 rfl
      | quotes =>
        rw [marks, mem_cons, not_or]
        exact ⟨by simp, hrest⟩
      | var name quoted => cases htext.1
      | sub t quoted => cases htext.1
  have hpattern : isPattern (marks (fun _ => []) w) = false := by
    simp [isPattern, hmem (sign '*') (Or.inl rfl), hmem (sign '?') (Or.inr (Or.inl rfl)),
      hmem (sign ']') (Or.inr (Or.inr rfl))]
  simp [isStatic, hne, htext, hpattern]

theorem wordFields_static (h : isStatic w = true) : wordFields host s w = [wordText w] := by
  simp only [isStatic, Bool.and_eq_true, decide_eq_true_eq, Bool.not_eq_true'] at h
  obtain ⟨⟨hne, htext⟩, hpattern⟩ := h
  obtain ⟨heq, htext', hsplit, hnil⟩ := marks_text s.value htext
  have hfields : fields (marks s.value w) = [marks s.value w] :=
    fields_unsplit (fun habsurd => hne (hnil.mp habsurd)) hsplit
  rw [wordFields, hfields, flatMap_singleton, pathnames, heq, if_neg (by simp [hpattern]),
    ← heq, htext']

theorem argvOf_static (h : ws.all isStatic = true) : argvOf host s ws = ws.map wordText := by
  induction ws with
  | nil => rfl
  | cons w ws ih =>
    rw [all_cons, Bool.and_eq_true] at h
    show wordFields host s w ++ argvOf host s ws = _
    rw [wordFields_static h.1, ih h.2]
    rfl

theorem plainWord_static (h : isStatic w = true) : plainWord w = true := by
  simp only [isStatic, Bool.and_eq_true, decide_eq_true_eq, Bool.not_eq_true'] at h
  exact plainWord_text h.1.2

theorem all_plainWord (h : ws.all isStatic = true) : ws.all plainWord = true :=
  all_eq_true.mpr fun w hw => plainWord_static (all_eq_true.mp h w hw)

/-- A command without redirections, by the words it comes to. -/
theorem exec_argv (hplain : ws.all plainWord = true) (hargv : argvOf host s ws = argv)
    (hne : argv ≠ []) (tested : Bool) (stdin : List C) :
    exec host pipefail sub (.simple as ws []) tested stdin s =
      settle tested ((builtin host argv s).getD (external host argv stdin s)) := by
  simp only [exec, expandWords_plain hplain, hargv, hne, if_false, targets, runSimple, map_nil,
    openAll]
  rfl

def Command.argvs : Command C → List (List (List C))
  | simple _ ws _ => [ws.map wordText]
  | pipe c d | and c d | or c d | seq c d => c.argvs ++ d.argvs

/-- All words are always the same, and there are no redirections. -/
def Command.isStatic : Command C → Bool
  | simple _ ws rs => ws ≠ [] && ws.all Shell.isStatic && rs = []
  | pipe c d | and c d | or c d | seq c d => c.isStatic && d.isStatic

/-- What has been called since is among these. -/
def Adds (s s' : State C W) (argvs : List (List (List C))) : Prop :=
  ∃ new, s'.calls = s.calls ++ new ∧ ∀ call ∈ new, call.argv ∈ argvs

variable {s' : State C W} {A : List (List (List C))}

omit [DecidableEq C] [Alphabet C] in
theorem Adds.left (h : Adds s s' A) (B : List (List (List C))) : Adds s s' (A ++ B) :=
  let ⟨new, hnew, hin⟩ := h
  ⟨new, hnew, fun call hcall => mem_append_left _ (hin call hcall)⟩

omit [DecidableEq C] [Alphabet C] in
theorem Adds.trans {s'' : State C W} {B : List (List (List C))} (h : Adds s s' A)
    (h' : Adds s' s'' B) : Adds s s'' (A ++ B) := by
  obtain ⟨new, hnew, hin⟩ := h
  obtain ⟨new', hnew', hin'⟩ := h'
  refine ⟨new ++ new', by rw [hnew', hnew, append_assoc], ?_⟩
  intro call hcall
  rcases mem_append.mp hcall with hcall | hcall
  · exact mem_append_left _ (hin call hcall)
  · exact mem_append_right _ (hin' call hcall)

variable (host pipefail sub) in
/-- **What a command without variables calls** is among its words. -/
theorem exec_static (hc : c.isStatic = true) (tested : Bool) (stdin : List C)
    (s : State C W) : Adds s (exec host pipefail sub c tested stdin s).1 c.argvs := by
  induction c generalizing tested stdin s with
  | simple as ws rs =>
    simp only [Command.isStatic, Bool.and_eq_true, decide_eq_true_eq] at hc
    obtain ⟨⟨hne, hws⟩, rfl⟩ := hc
    rw [exec_argv (all_plainWord hws) (argvOf_static hws) (by simpa using hne), Adds, calls_settle]
    cases hbuiltin : builtin host (ws.map wordText) s with
    | some r => exact ⟨[], by simpa using builtin_calls hbuiltin, by simp⟩
    | none => exact ⟨_, rfl, fun call hcall => by simp [mem_singleton.mp hcall, Command.argvs]⟩
  | pipe c d ihc ihd =>
    simp only [Command.isStatic, Bool.and_eq_true] at hc
    have hfirst := ihc hc.1 tested stdin s
    have hsecond := ihd hc.2 tested (exec host pipefail sub c tested stdin s).2
      (s.subshell (exec host pipefail sub c tested stdin s).1)
    simp only [exec]
    rw [Adds, calls_settle]
    exact hfirst.trans hsecond
  | and c d ihc ihd =>
    simp only [Command.isStatic, Bool.and_eq_true] at hc
    have hfirst := ihc hc.1 true stdin s
    simp only [exec]
    split
    · exact hfirst.left _
    · exact hfirst.trans (ihd hc.2 tested stdin _)
  | or c d ihc ihd =>
    simp only [Command.isStatic, Bool.and_eq_true] at hc
    have hfirst := ihc hc.1 true stdin s
    simp only [exec]
    split
    · exact hfirst.left _
    · exact hfirst.trans (ihd hc.2 tested stdin _)
  | seq c d ihc ihd =>
    simp only [Command.isStatic, Bool.and_eq_true] at hc
    have hfirst := ihc hc.1 tested stdin s
    simp only [exec]
    split
    · exact hfirst.left _
    · exact hfirst.trans (ihd hc.2 tested stdin _)

/-- Commands one after the other. -/
def sequence : List (Command C) → Command C
  | [] => .simple [] [] []
  | [c] => c
  | c :: d :: cs => .seq c (sequence (d :: cs))

variable {cs : List (Command C)}

theorem isStatic_sequence (hne : cs ≠ []) (h : ∀ c ∈ cs, c.isStatic = true) :
    (sequence cs).isStatic = true := by
  induction cs with
  | nil => exact absurd rfl hne
  | cons c cs ih =>
    cases cs with
    | nil => exact h c mem_cons_self
    | cons d cs =>
      have hrest := ih (cons_ne_nil _ _) fun e he => h e (mem_cons_of_mem _ he)
      rw [sequence, Command.isStatic, h c mem_cons_self, hrest]
      rfl

omit [DecidableEq C] [Alphabet C] in
theorem argvs_sequence (hne : cs ≠ []) : (sequence cs).argvs = cs.flatMap Command.argvs := by
  induction cs with
  | nil => exact absurd rfl hne
  | cons c cs ih =>
    cases cs with
    | nil => simp [sequence]
    | cons d cs =>
      rw [sequence, Command.argvs, ih (cons_ne_nil _ _)]
      rfl

omit [DecidableEq C] [Alphabet C] in
theorem text_unsplit (h : w.all Piece.isText = true) :
    (w.map Piece.unsplit).all Piece.isText = true ∧ wordText (w.map Piece.unsplit) = wordText w ∧
      w.any Piece.isSub = false := by
  induction w with
  | nil => exact ⟨rfl, rfl, rfl⟩
  | cons p ps ih =>
    rw [all_cons, Bool.and_eq_true] at h
    obtain ⟨hall, htext, hsub⟩ := ih h.2
    cases p with
    | char c quoted => exact ⟨hall, congrArg (c :: ·) htext, hsub⟩
    | quotes => exact ⟨hall, htext, hsub⟩
    | var name quoted => cases h.1
    | sub t quoted => cases h.1

/-- `name=value`, where nothing is filled in. -/
theorem exec_assignText (h : w.all Piece.isText = true) (tested : Bool) (stdin : List C) :
    exec host pipefail sub (.simple [(name, w)] [] []) tested stdin s =
      (s.assign name (wordText w) 0, []) := by
  have hunsplit := text_unsplit h
  have hvalue : expandWord sub (w.map Piece.unsplit) s = (marks s.value (w.map Piece.unsplit), s) :=
    expandWord_plain (plainWord_text hunsplit.1)
  have hassign : assign sub [(name, w)] s = s.assign name (wordText w) 0 := by
    simp only [assign, hvalue, (marks_text s.value hunsplit.1).2.1, hunsplit.2.1, hunsplit.2.2,
      Bool.false_eq_true, if_false]
  simp only [exec, expandWords, if_true, targets, map_nil, openAll]
  show settle tested (assign sub _ (s.on s.world), _) = _
  rw [show s.on s.world = s from rfl, hassign]
  exact if_neg fun habsurd => habsurd.2.2 rfl

/-! Words that are put together -/

/-- Neither a space nor the end of a line, nor a part of a pattern. -/
def isInert (c : C) : Bool :=
  !isBlank c && c ≠ sign '\n' && c ≠ sign '*' && c ≠ sign '?' && c ≠ sign ']'

omit [DecidableEq C] [Alphabet C] in
@[simp]
theorem wordText_append (w w' : Word C) : wordText (w ++ w') = wordText w ++ wordText w' :=
  filterMap_append

omit [DecidableEq C] [Alphabet C] in
@[simp]
theorem wordText_literal (t : List C) : wordText (literal t) = t := by
  induction t with
  | nil => rfl
  | cons c cs ih => exact congrArg (c :: ·) ih

@[simp]
theorem wordText_quote (t : List C) : wordText (quotePieces t) = t := by
  show wordText (t.flatMap escapedPieces) = t
  induction t with
  | nil => rfl
  | cons c cs ih =>
    rw [flatMap_cons, wordText_append, ih, escapedPieces]
    by_cases hc : c = sign '\''
    · subst hc
      rw [if_pos rfl]
      rfl
    · rw [if_neg hc]
      rfl

omit [DecidableEq C] [Alphabet C] in
theorem wordText_double (t : List C) :
    (Piece.quotes :: t.map fun c => .char c true).all Piece.isText = true ∧
      wordText (.quotes :: t.map fun c => .char c true) = t := by
  induction t with
  | nil => exact ⟨rfl, rfl⟩
  | cons c cs ih => exact ⟨ih.1, congrArg (c :: ·) ih.2⟩

theorem safe_literal (h : t.all isInert = true) : (literal t).all Piece.isSafe = true := by
  rw [literal, all_map, all_eq_true]
  intro c hc
  have hinert := all_eq_true.mp h c hc
  simp only [isInert, Bool.and_eq_true] at hinert
  simp only [Function.comp, Piece.isSafe, Bool.false_or, Bool.and_eq_true]
  exact ⟨⟨hinert.1.1.2, hinert.1.2⟩, hinert.2⟩

theorem safe_quote (t : List C) : (quotePieces t).all Piece.isSafe = true := by
  show (t.flatMap escapedPieces).all Piece.isSafe = true
  rw [all_flatMap, all_eq_true]
  intro c _
  rw [escapedPieces]
  split_ifs <;> rfl

theorem expansion_inert (h : t.all isInert = true) :
    expansion false t = t.map fun c => .char c false := by
  refine map_congr_left fun c hc => ?_
  have hinert := all_eq_true.mp h c hc
  simp only [isInert, Bool.and_eq_true, Bool.not_eq_true', decide_eq_true_eq, ne_eq] at hinert
  rw [if_neg (by simp [hinert])]

theorem pathnames_inert (host : Host C W) (w : W) (h : t.all isInert = true) :
    pathnames host w (t.map fun c => .char c false) = [t] := by
  have hmem : ∀ c, c = sign '*' ∨ c = sign '?' ∨ c = sign ']' → c ∉ t := by
    intro c hc hmem
    have hinert := all_eq_true.mp h c hmem
    simp only [isInert, Bool.and_eq_true, decide_eq_true_eq, ne_eq] at hinert
    rcases hc with rfl | rfl | rfl
    · exact hinert.1.1.2 rfl
    · exact hinert.1.2 rfl
    · exact hinert.2 rfl
  have hpattern : isPattern (t.map fun c => Mark.char c false) = false := by
    simp [isPattern, hmem]
  rw [pathnames, if_neg (by simp [hpattern]), text_unquoted]

variable {ts : List (List C)}

theorem fields_spaced (h : ∀ t ∈ ts, t ≠ [] ∧ t.all isInert = true) :
    fields (expansion false ([sign ' '].intercalate ts)) =
      ts.map fun t => t.map fun c => .char c false := by
  have hsplit : ∀ t : List C, ∀ m ∈ t.map fun c => Mark.char c false, m.isSplit = false := by
    intro t m hm
    obtain ⟨c, -, rfl⟩ := mem_map.mp hm
    rfl
  induction ts with
  | nil => rfl
  | cons t ts ih =>
    obtain ⟨hne, hinert⟩ := h t mem_cons_self
    have hne' : (t.map fun c => Mark.char c false) ≠ [] := by simpa using hne
    cases ts with
    | nil =>
      rw [intercalate_singleton, expansion_inert hinert, fields_unsplit hne' (hsplit t)]
      rfl
    | cons t' ts =>
      have happend : ∀ u v : List C, expansion false (u ++ v) = expansion false u ++ expansion false v :=
        fun u v => map_append
      have hspace : expansion (C := C) false [sign ' '] = [.split (sign ' ')] := by
        simp [expansion, isBlank]
      rw [intercalate_cons_cons, happend, happend, expansion_inert hinert, hspace, append_assoc,
        fields, singleton_append, splitOnP_append_cons_of_forall_mem (hsplit t) _ rfl,
        filter_cons_of_pos (by simpa using hne)]
      exact congrArg _ (ih fun u hu => h u (mem_cons_of_mem _ hu))

/-- **A variable without quotes** stands for the words its value is split into. -/
theorem wordFields_var (hname : name ≠ [sign '?'])
    (hvalue : s.vars name = [sign ' '].intercalate ts)
    (h : ∀ t ∈ ts, t ≠ [] ∧ t.all isInert = true) :
    wordFields host s [.var name false] = ts := by
  rw [wordFields, marks, marks, append_nil, State.value, if_neg hname, hvalue, fields_spaced h]
  clear hvalue
  induction ts with
  | nil => rfl
  | cons t ts ih =>
    rw [map_cons, flatMap_cons, pathnames_inert host s.world (h t mem_cons_self).2,
      ih fun u hu => h u (mem_cons_of_mem _ hu)]
    rfl

/-! One command after the other -/

section Joined
variable {c d : Command C} {tested : Bool} {stdin : List C} {r : State C W × List C}

theorem exec_seq_goes (hc : exec host pipefail sub c tested stdin s = r) (hr : r.1.exited = false) :
    (exec host pipefail sub (.seq c d) tested stdin s).1 =
      (exec host pipefail sub d tested stdin r.1).1 := by
  simp only [exec, hc, hr, Bool.false_eq_true, if_false]

theorem exec_seq_ends (hc : exec host pipefail sub c tested stdin s = r) (hr : r.1.exited = true) :
    exec host pipefail sub (.seq c d) tested stdin s = r := by
  simp only [exec, hc, hr, if_true]

theorem exec_and_goes (hc : exec host pipefail sub c true stdin s = r) (hr : r.1.exited = false)
    (hok : r.1.status = 0) :
    (exec host pipefail sub (.and c d) tested stdin s).1 =
      (exec host pipefail sub d tested stdin r.1).1 := by
  simp only [exec, hc, hr, hok, Bool.false_eq_true, ne_eq, not_true_eq_false, or_self, if_false]

theorem exec_and_stops (hc : exec host pipefail sub c true stdin s = r) (hfailed : r.1.status ≠ 0) :
    exec host pipefail sub (.and c d) tested stdin s = r := by
  simp only [exec, hc, ne_eq, hfailed, not_false_eq_true, or_true, if_true]

theorem exec_or_goes (hc : exec host pipefail sub c true stdin s = r) (hr : r.1.exited = false)
    (hfailed : r.1.status ≠ 0) :
    (exec host pipefail sub (.or c d) tested stdin s).1 =
      (exec host pipefail sub d tested stdin r.1).1 := by
  simp only [exec, hc, hr, hfailed, Bool.false_eq_true, or_self, if_false]

theorem exec_or_stops (hc : exec host pipefail sub c true stdin s = r) (hok : r.1.status = 0) :
    exec host pipefail sub (.or c d) tested stdin s = r := by
  simp only [exec, hc, hok, or_true, if_true]

end Joined

end Static

/-! ## Commands as functions -/

section Does
variable (host pipefail sub) (vars : List C → List C) (stdin : List C)

/-- All the command does, in a shell that goes on and has these variables: its exit code, and
the world behind it. -/
def Command.Does (c : Command C) (f : W → Nat × W) : Prop :=
  ∀ tested s, s.errexit = false → s.exited = false → s.vars = vars →
    let s' := (exec host pipefail sub c tested stdin s).1
    s'.errexit = false ∧ (s'.exited = true → s'.status ≠ 0) ∧ s'.vars = vars ∧
      (s'.status, s'.world) = f s.world

/-- The command never ends the shell. -/
def Command.Stays (c : Command C) : Prop :=
  ∀ tested s, s.errexit = false → s.exited = false →
    (exec host pipefail sub c tested stdin s).1.errexit = false ∧
      (exec host pipefail sub c tested stdin s).1.exited = false

variable {host pipefail sub vars stdin} {c d : Command C} {f g : W → Nat × W}

theorem does_program {args : W → List (List C)} (hc : c.isProgram name = true)
    (hargs : ∀ s : State C W, s.vars = vars → c.args host s = args s.world)
    (hfiles : ∀ s : State C W, s.vars = vars → c.files s = files) :
    c.Does host pipefail sub vars stdin fun w => outcome host (name :: args w) files stdin w := by
  intro tested s hlive hexited hvars
  obtain ⟨r, hr, hran⟩ := exec_program host pipefail sub s hc tested stdin
  rw [settle_of_false (hran.errexit.trans hlive)] at hr
  rw [hargs s hvars, hfiles s hvars] at hran
  simp only [hr]
  refine ⟨hran.errexit.trans hlive, fun habsurd => ?_, hran.vars.trans hvars, hran.outcome⟩
  rw [hran.exited, hexited] at habsurd
  cases habsurd

theorem stays_program (hc : c.isProgram name = true) : c.Stays host pipefail sub stdin := by
  intro tested s hlive hexited
  obtain ⟨r, hr, hran⟩ := exec_program host pipefail sub s hc tested stdin
  rw [settle_of_false (hran.errexit.trans hlive)] at hr
  rw [hr]
  exact ⟨hran.errexit.trans hlive, hran.exited.trans hexited⟩

theorem Command.Stays.and (hc : c.Stays host pipefail sub stdin) (hd : d.Stays host pipefail sub stdin) :
    (Command.and c d).Stays host pipefail sub stdin := by
  intro tested s hlive hexited
  have hfirst := hc true s hlive hexited
  simp only [exec]
  split
  · exact hfirst
  · exact hd tested _ hfirst.1 hfirst.2

/-- **`c && d`**: the second is run if the first goes well. -/
theorem Command.Does.and (hc : c.Does host pipefail sub vars stdin f)
    (hd : d.Does host pipefail sub vars stdin g) :
    (Command.and c d).Does host pipefail sub vars stdin
      fun w => if (f w).1 = 0 then g (f w).2 else f w := by
  intro tested s hlive hexited hvars
  obtain ⟨hlive', hexited', hvars', hresult⟩ := hc true s hlive hexited hvars
  simp only [exec, ← hresult]
  by_cases hstatus : (exec host pipefail sub c true stdin s).1.status = 0
  · have hgoes : (exec host pipefail sub c true stdin s).1.exited = false := by
      simpa using fun h => hexited' h hstatus
    simp only [hgoes, hstatus, ne_eq, not_true_eq_false, or_self, if_false, if_true,
      Bool.false_eq_true]
    exact hd tested _ hlive' hgoes hvars'
  · rw [if_pos (Or.inr hstatus), if_neg hstatus]
    exact ⟨hlive', hexited', hvars', rfl⟩

/-- Steps up to the first that fails. -/
def inTurn : List (W → Nat × W) → W → Nat × W
  | [], w => (0, w)
  | f :: fs, w => if (f w).1 = 0 then inTurn fs (f w).2 else f w

omit [DecidableEq C] [Alphabet C] in
theorem inTurn_concat (fs : List (W → Nat × W)) (f : W → Nat × W) (w : W) : inTurn (fs ++ [f]) w =
      if (inTurn fs w).1 = 0 then f (inTurn fs w).2 else inTurn fs w := by
  induction fs generalizing w with
  | nil =>
    by_cases h : (f w).1 = 0
    · simp only [nil_append, inTurn, h, if_true]
      exact Prod.ext h.symm rfl
    · simp [inTurn, h]
  | cons g fs ih =>
    by_cases h : (g w).1 = 0
    · simp only [cons_append, inTurn, h, if_true]
      exact ih _
    · simp [inTurn, h]

/-- **Commands joined by `&&`** run up to the first that fails. -/
theorem Command.Does.inTurn {fs : List (W → Nat × W)}
    (hc : c.Does host pipefail sub vars stdin (Shell.inTurn fs))
    (hd : d.Does host pipefail sub vars stdin g) :
    (Command.and c d).Does host pipefail sub vars stdin (Shell.inTurn (fs ++ [g])) := by
  have hand := hc.and hd
  simp only [← inTurn_concat] at hand
  exact hand

theorem Command.Does.first (hc : c.Does host pipefail sub vars stdin f) :
    c.Does host pipefail sub vars stdin (Shell.inTurn [f]) := by
  have hone : Shell.inTurn [f] = f := by
    funext w
    exact (inTurn_concat [] f w).trans (if_pos rfl)
  rw [hone]
  exact hc

/-- **`c; d`**: the second is run in any case. -/
theorem Command.Does.seq (hc : c.Does host pipefail sub vars stdin f)
    (hstays : c.Stays host pipefail sub stdin) (hd : d.Does host pipefail sub vars stdin g) :
    (Command.seq c d).Does host pipefail sub vars stdin fun w => g (f w).2 := by
  intro tested s hlive hexited hvars
  obtain ⟨hlive', -, hvars', hresult⟩ := hc tested s hlive hexited hvars
  obtain ⟨-, hgoes⟩ := hstays tested s hlive hexited
  simp only [exec, hgoes, ← hresult, Bool.false_eq_true, if_false]
  exact hd tested _ hlive' hgoes hvars'

/-- `: > path`. -/
def emptied (host : Host C W) (path : List C) (w : W) : Nat × W :=
  match host.openFile path w with
  | none => (1, w)
  | some w' => (0, host.writeFile path [] w')

theorem does_empty {path : List C}
    (hc : c = .simple [] [literal (word ":")] [.toFile false (literal path)]) :
    c.Does host pipefail sub vars stdin (emptied host path) := by
  intro tested s hlive hexited hvars
  have hargv : expandWords host sub [literal (word ":")] s = ([word ":"], s) := by
    rw [expandWords_plain (by simp [plainWord_literal])]
    have hliteral : wordFields host s (literal (word ":")) = [word (C := C) ":"] := by
      refine wordFields_literal ?_ ?_ <;> simp (disch := decide) [isPattern, word, sign_eq_iff]
    simp [argvOf, hliteral]
  have htargets : targets sub s [.toFile false (literal path)] = [(path, true)] := by
    simp only [targets, expandWord_plain (plainWord_literal path), marks_literal, text_unquoted,
      Bool.not_false]
  subst hc
  simp only [exec, hargv, htargets, if_false, cons_ne_self]
  rw [runSimple, emptied]
  cases hopen : host.openFile path s.world with
  | none =>
    simp [openAll, hopen, settle, hlive, hvars]
  | some w =>
    simp [openAll, hopen, settle, hlive, hvars, deliver, builtin, State.on, hexited]

end Does

theorem run_succ {n : Nat} (h : parse t = some c) :
    run host pipefail (n + 1) t s = exec host pipefail (substitute host pipefail n) c false [] s := by
  rw [run, h]
  rfl

theorem sh_eq {host : Host C W} (h : parse t = some c) (vars : List C → List C) (w : W) :
    sh host pipefail t vars w =
      exec host pipefail (substitute host pipefail t.length) c false [] (initial vars w) :=
  run_succ h

end Running

end Shell
