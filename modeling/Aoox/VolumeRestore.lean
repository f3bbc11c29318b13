import Aoox.DatabaseRecipes
import Aoox.ScriptRuns

/-! # Restoring a volume

The data of an application's volume, and that of a Redis or Valkey server, is restored by a
helper container: it deletes what is in the volume and puts in what the backup has.  The container
that uses the volume is stopped before and started again behind it, also if the restore has
failed.

Nothing keeps the old data.  A restore that ends in an error has left the volume as it was exactly
if the helper's start did not take effect, or if what its tools did to the volume, one after the
other, comes to nothing (`old_content_iff`).  What the tools do is given by `Restore.left`, without
the shell; that the script does just that is `left_eq`.

The tools may answer as they like, so a helper that is killed is one whose tools do nothing from
then on.  What a server still writes as it stops is not counted.
-/
open List
namespace Aoox.VolumeRestore
open JsString Shell Scripts DatabaseRecipes

/-! ## The calls -/

/-- What the calls meet: the files the helper sees, its exit code once it has been started, and
whether the container that uses the volume runs, or how many tasks of its service. -/
structure World where
  files : Files
  exit : Option Nat
  container : Option Bool
  tasks : Nat

namespace World
variable (w : World)

def withContainer (running : Bool) : World := { w with container := w.container.map fun _ => running }

def withTasks (n : Nat) : World := { w with tasks := n }

/-- The helper has been started, and has run. -/
def ran (files : Files) (status : Nat) : World := { w with files := files, exit := some status }

end World

inductive Call where
  | forServer
  | findContainer
  | taskContainers
  | scale (replicas : Nat)
  | stopContainer
  | startContainer
  | createVolume (name : JsString)
  | ensureImage
  | password
  | createHelper
  | startHelper
  | waitContainer
  | containerLogs
  | removeHelper

def Reply : Call → Type
  | .findContainer => Option Bool
  | .taskContainers | .waitContainer => Nat
  | _ => Unit

/-- Docker, with a helper that runs this script. -/
abbrev docker (k : Container) (text : JsString) : System World where
  Call := Call
  Reply := Reply
  effect
    | .findContainer, w => some (w.container, w)
    | .taskContainers, w => some (w.tasks, w)
    | .scale replicas, w => some ((), w.withTasks replicas)
    | .stopContainer, w => some ((), w.withContainer false)
    | .startContainer, w => some ((), w.withContainer true)
    | .startHelper, w =>
      let s := (sh k.tools.host k.pipefail text k.env w.files).1
      some ((), w.ran s.world s.status)
    | .waitContainer, w => w.exit.map fun code => (code, w)
    | .forServer, w => some ((), w)
    | .createVolume _, w => some ((), w)
    | .ensureImage, w => some ((), w)
    | .password, w => some ((), w)
    | .createHelper, w => some ((), w)
    | .containerLogs, w => some ((), w)
    | .removeHelper, w => some ((), w)

/-! ## The restores -/

def BACKUPS_VOLUME : JsString := js "aoox_backups"

section Programs
variable (k : Container) (text : JsString)

abbrev Program (α : Type) := Script (docker k text) α

abbrev await (c : Call) : Program k text (Reply c) := Script.await (S := docker k text) c

def runOnceWithOutput : Program k text Nat := do
  await k text .createHelper
  Script.andFinally (do
      await k text .startHelper
      let code : Nat ← await k text .waitContainer
      Script.swallow (await k text .containerLogs)
      pure code)
    (Script.swallow (await k text .removeHelper))

def runHelper : Program k text Nat := do
  await k text .ensureImage
  await k text (.createVolume BACKUPS_VOLUME)
  runOnceWithOutput k text

def runRecipe : Program k text Nat := do
  await k text .ensureImage
  await k text (.createVolume BACKUPS_VOLUME)
  await k text .password
  runOnceWithOutput k text

def callIf (condition : Bool) (c : Program k text Unit) : Program k text Unit :=
  if condition then c else pure ()

def containerOf (service : Bool) : Program k text (Option Bool) :=
  if service then pure none else await k text .findContainer

/-- `wasRunning`. -/
def runs (service : Bool) (c : Option Bool) : Program k text Bool :=
  if service then await k text .taskContainers >>= fun tasks : Nat => pure (decide (0 < tasks))
  else pure (decide (c = some true))

/-- `restore` of a volume mount. -/
def restoreVolume (status : BackupStatus) (volume : JsString) (service : Bool) (replicas : Nat) :
    Program k text Unit :=
  if status ≠ .success then Script.thrown
  else do
    await k text .forServer
    let c ← containerOf k text service
    let wasRunning ← runs k text service c
    callIf k text (service && wasRunning) (await k text (.scale 0))
    callIf k text (c.isSome && wasRunning) (await k text .stopContainer)
    Script.andFinally (do
        await k text (.createVolume volume)
        let code ← runHelper k text
        if code ≠ 0 then Script.thrown else pure ())
      (do
        callIf k text (c.isSome && wasRunning) (await k text .startContainer)
        callIf k text (service && wasRunning) (await k text (.scale replicas)))

/-- `restore` of a database whose volume is rewritten. -/
def restoreDatabase (status : BackupStatus) : Program k text Unit :=
  if status ≠ .success then Script.thrown
  else do
    let c ← await k text .findContainer
    if c.isNone then Script.thrown
    else do
      await k text .stopContainer
      Script.andFinally (do
          let code ← runRecipe k text
          if code ≠ 0 then Script.thrown else pure ())
        (await k text .startContainer)

end Programs

/-! ## The scripts -/

def VOLUME_SCRIPT : JsString :=
  script "cd /data && rm -rf ./* ./.[!.]* ./..?* 2>/dev/null; tar xzf \"$BACKUP_FILE\" -C /data"

inductive Restore where
  /-- Of a volume, that a container or the tasks of a service use. -/
  | volume (name : JsString) (service : Bool) (replicas : Nat)
  | database (engine : DatabaseEngine) (offline : (BACKUP_RECIPES engine).restoreMode = .offlineVolume)

namespace Restore

/-- The script of the helper. -/
def text : Restore → JsString
  | volume .. => VOLUME_SCRIPT
  | database engine _ => (BACKUP_RECIPES engine).restore

def program (k : Container) (status : BackupStatus) : (r : Restore) → Program k r.text Unit
  | volume name service replicas => restoreVolume k _ status name service replicas
  | database _ _ => restoreDatabase k _ status

end Restore

/-! ## What the tools do -/

section Tools
variable (k : Container) (w : Files)

abbrev backupFile (k : Container) : JsString := k.env (script "BACKUP_FILE")

/-- A tool is called, with the files its output goes to: its exit code, and the files behind it. -/
def tool (argv : List JsString) (files : List (JsString × Bool)) : Nat × Files :=
  outcome k.tools.host argv files [] w

/-- What the patterns of `rm` stand for. -/
def everything : List JsString :=
  [script "./*", script "./.[!.]*", script "./..?*"].flatMap fun pattern =>
    k.tools.glob (pattern.map fun c => .char c false) w

/-- `rm` is called in the volume, if `cd` goes well. -/
def removed : Nat × Files :=
  let entered := tool k w [js "cd", js "/data"] []
  if entered.1 = 0 then
    tool k entered.2 (js "rm" :: js "-rf" :: everything k entered.2) [(js "/dev/null", false)]
  else entered

/-- `tar` is called in any case. -/
def volumeLeft : Files :=
  (tool k (removed k w).2 [js "tar", js "xzf", backupFile k, js "-C", js "/data"] []).2

def APPENDONLY : JsString := js "/data/appendonlydir"

/-- The manifest of the append-only files. -/
def MANIFEST : JsString :=
  script "file appendonly.aof.1.base.rdb seq 1 type b\nfile appendonly.aof.1.incr.aof seq 1 type i\n"

/-- The steps of a restore of Redis. -/
def snapshotSteps : List (Files → Nat × Files) :=
  [fun w => tool k w [js "rm", js "-rf", APPENDONLY, js "/data/dump.rdb"] [],
    fun w => tool k w [js "mkdir", js "-p", APPENDONLY] [],
    fun w => tool k w [js "cp", backupFile k, APPENDONLY ++ js "/appendonly.aof.1.base.rdb"] [],
    emptied k.tools.host (APPENDONLY ++ js "/appendonly.aof.1.incr.aof"),
    fun w => tool k w [js "printf", MANIFEST] [(APPENDONLY ++ js "/appendonly.aof.manifest", true)]]

def Restore.left : Restore → Files
  | .volume .. => volumeLeft k w
  | .database .. => (inTurn (snapshotSteps k) w).2

end Tools

def SameContent (w w' : Files) : Prop := ∀ path, js "/data/" <+: path → w path = w' path

theorem SameContent.refl (w : Files) : SameContent w w := fun _ _ => rfl

/-! ## The scripts do what the tools do -/

section Scripts
variable {k : Container}

abbrev DoesIn (k : Container) (n : Nat) (c : Command CodeUnit) (f : Files → Nat × Files) : Prop :=
  c.Does k.tools.host k.pipefail (subOf k n) k.env [] f

def cdCommand : Command CodeUnit := cmd (script "cd /data")

def rmCommand : Command CodeUnit := cmd (script "rm -rf ./* ./.[!.]* ./..?* 2>/dev/null")

def tarCommand : Command CodeUnit := cmd (script "tar xzf \"$BACKUP_FILE\" -C /data")

def quotedPath : Word CodeUnit := [.quotes, .var (script "BACKUP_FILE") true]

theorem parse_volume : parse VOLUME_SCRIPT = some (.seq (.and cdCommand rmCommand) tarCommand) := by
  decide +kernel

variable {engine : DatabaseEngine}

theorem parse_snapshot (h : (BACKUP_RECIPES engine).restoreMode = .offlineVolume) :
    parse (BACKUP_RECIPES engine).restore = some (.and (.and (.and (.and
      (cmd (script "rm -rf /data/appendonlydir /data/dump.rdb")) (cmd (script "mkdir -p /data/appendonlydir")))
      (cmd (script "cp \"$BACKUP_FILE\" /data/appendonlydir/appendonly.aof.1.base.rdb")))
      (cmd (script ": > /data/appendonlydir/appendonly.aof.1.incr.aof")))
      (cmd (script "printf \"" ++ MANIFEST ++ script "\" > /data/appendonlydir/appendonly.aof.manifest"))) := by
  cases engine with
  | redis => decide +kernel
  | valkey => decide +kernel
  | _ => cases h

/-- The words of a command: a word that stands for itself, the path of the backup, or a text in
quotes. -/
inductive Says (k : Container) : Word CodeUnit → JsString → Prop where
  | literal {t : JsString} (hne : t ≠ []) (h : isPattern (t.map fun c => Mark.char c false) = false) :
      Says k (literal t) t
  | path : Says k quotedPath (backupFile k)
  | quoted (t : JsString) : Says k (.quotes :: t.map fun c => .char c true) t

/-- A word that stands for itself, and is no pattern. -/
def isLiteral (t : JsString) : Bool := t ≠ [] && !isPattern (t.map fun c => Mark.char c false)

theorem says_literal {t : JsString} (h : isLiteral t = true) : Says k (literal t) t := by
  rw [isLiteral, Bool.and_eq_true, decide_eq_true_eq, Bool.not_eq_true'] at h
  exact .literal h.1 h.2

variable {ws : List (Word CodeUnit)} {args : List JsString}

theorem args_says {s : State CodeUnit Files} (hvars : s.vars = k.env)
    (h : Forall₂ (Says k) ws args) : argvOf k.tools.host s ws = args := by
  induction h with
  | nil => rfl
  | cons h hs ih =>
    show wordFields k.tools.host s _ ++ argvOf k.tools.host s _ = _
    rw [ih]
    cases h with
    | literal hne hpattern => rw [wordFields_literal hne hpattern]; rfl
    | path =>
      rw [quotedPath, wordFields_quotedVar, value_backupFile, pathIn, hvars]
      rfl
    | quoted t => rw [wordFields_quoted]; rfl

variable {c : Command CodeUnit}

theorem does_tool {n : Nat} {name : JsString} {w : Word CodeUnit} {files : List (JsString × Bool)}
    (hc : c.isProgram name = true) (hwords : c.words = w :: ws) (hargs : Forall₂ (Says k) ws args)
    (hfiles : ∀ s : State CodeUnit Files, s.vars = k.env → c.files s = files) :
    DoesIn k n c fun w => tool k w (name :: args) files := by
  refine does_program hc (fun s hvars => ?_) hfiles
  rw [Command.args_eq hwords, args_says hvars hargs]

theorem files_nil (h : c.redirects = []) (s : State CodeUnit Files) : c.files s = [] := by
  rw [c.files_eq, h]
  rfl

theorem does_removed (n : Nat) : DoesIn k n (.and cdCommand rmCommand) (removed k) := by
  have hcd : DoesIn k n cdCommand fun w => tool k w [js "cd", js "/data"] [] := by
    have hdata : Says k (literal (js "/data")) (js "/data") := says_literal (by decide)
    have hwords : cdCommand.words = literal (js "cd") :: [literal (js "/data")] := by decide
    exact does_tool (by decide) hwords (.cons hdata .nil) fun s _ => files_nil (by decide) s
  have hrm : DoesIn k n rmCommand
      fun w => tool k w (js "rm" :: js "-rf" :: everything k w) [(js "/dev/null", false)] := by
    refine does_program (by decide) (fun s _ => ?_) fun s _ => ?_
    · have hwords : rmCommand.words = [literal (js "rm"), literal (js "-rf"), literal (script "./*"),
          literal (script "./.[!.]*"), literal (script "./..?*")] := by decide
      rw [Command.args_eq hwords]
      have hflag : wordFields k.tools.host s (literal (js "-rf")) = [js "-rf"] :=
        wordFields_literal (by decide) (by decide)
      have hpattern : ∀ t ∈ [script "./*", script "./.[!.]*", script "./..?*"],
          wordFields k.tools.host s (literal t) = k.tools.glob (t.map fun c => .char c false) s.world := by
        intro t ht
        refine wordFields_pattern ?_
        fin_cases ht <;> decide
      simp only [mem_cons, not_mem_nil, or_false, forall_eq_or_imp, forall_eq] at hpattern
      simp only [argvOf, flatMap_cons, flatMap_nil, hflag, hpattern.1, hpattern.2.1, hpattern.2.2,
        everything, append_nil, cons_append, nil_append]
    · have hnull : rmCommand.redirects = [.toFile true (literal (js "/dev/null"))] := by decide
      exact Command.files_literal hnull
  exact hcd.and hrm

theorem does_volume (n : Nat) : DoesIn k n (.seq (.and cdCommand rmCommand) tarCommand) fun w =>
      tool k (removed k w).2 [js "tar", js "xzf", backupFile k, js "-C", js "/data"] [] := by
  have htar : DoesIn k n tarCommand
      fun w => tool k w [js "tar", js "xzf", backupFile k, js "-C", js "/data"] [] := by
    have hwords : tarCommand.words =
        [literal (js "tar"), literal (js "xzf"), quotedPath, literal (js "-C"), literal (js "/data")] := by
      decide
    have htells : Forall₂ (Says k) [literal (js "xzf"), quotedPath, literal (js "-C"), literal (js "/data")]
        [js "xzf", backupFile k, js "-C", js "/data"] :=
      .cons (says_literal (by decide)) <| .cons .path <|
        .cons (says_literal (by decide)) <| .cons (says_literal (by decide)) .nil
    exact does_tool (by decide) hwords htells fun s _ => files_nil (by decide) s
  have hcd : cdCommand.isProgram (js "cd") = true := by decide
  have hrm : rmCommand.isProgram (js "rm") = true := by decide
  have hstays : (Command.and cdCommand rmCommand).Stays k.tools.host k.pipefail (subOf k n) [] :=
    (stays_program hcd).and (stays_program hrm)
  exact (does_removed n).seq hstays htar

theorem does_snapshot (n : Nat) (h : (BACKUP_RECIPES engine).restoreMode = .offlineVolume)
    (hparse : parse (BACKUP_RECIPES engine).restore = some c) :
    DoesIn k n c (inTurn (snapshotSteps k)) := by
  obtain rfl := Option.some.inj ((parse_snapshot h).symm.trans hparse)
  have hfolder : Says k (literal APPENDONLY) APPENDONLY := says_literal (by decide)
  have hrm : DoesIn k n (cmd (script "rm -rf /data/appendonlydir /data/dump.rdb"))
      fun w => tool k w [js "rm", js "-rf", APPENDONLY, js "/data/dump.rdb"] [] := by
    have hwords : (cmd (script "rm -rf /data/appendonlydir /data/dump.rdb")).words =
        [literal (js "rm"), literal (js "-rf"), literal APPENDONLY, literal (js "/data/dump.rdb")] := by
      decide
    exact does_tool (by decide) hwords
      (.cons (says_literal (by decide)) <| .cons hfolder <|
        .cons (says_literal (by decide)) .nil) fun s _ => files_nil (by decide) s
  have hmkdir : DoesIn k n (cmd (script "mkdir -p /data/appendonlydir"))
      fun w => tool k w [js "mkdir", js "-p", APPENDONLY] [] := by
    have hwords : (cmd (script "mkdir -p /data/appendonlydir")).words =
        [literal (js "mkdir"), literal (js "-p"), literal APPENDONLY] := by decide
    exact does_tool (by decide) hwords
      (.cons (says_literal (by decide)) <| .cons hfolder .nil) fun s _ => files_nil (by decide) s
  have hcp : DoesIn k n (cmd (script "cp \"$BACKUP_FILE\" /data/appendonlydir/appendonly.aof.1.base.rdb"))
      fun w => tool k w [js "cp", backupFile k, APPENDONLY ++ js "/appendonly.aof.1.base.rdb"] [] := by
    have hwords : (cmd (script "cp \"$BACKUP_FILE\" /data/appendonlydir/appendonly.aof.1.base.rdb")).words =
        [literal (js "cp"), quotedPath, literal (APPENDONLY ++ js "/appendonly.aof.1.base.rdb")] := by
      decide
    exact does_tool (by decide) hwords
      (.cons .path <| .cons (says_literal (by decide)) .nil) fun s _ => files_nil (by decide) s
  have hempty : DoesIn k n (cmd (script ": > /data/appendonlydir/appendonly.aof.1.incr.aof"))
      (emptied k.tools.host (APPENDONLY ++ js "/appendonly.aof.1.incr.aof")) :=
    does_empty (by decide)
  have hprintf : DoesIn k n
      (cmd (script "printf \"" ++ MANIFEST ++ script "\" > /data/appendonlydir/appendonly.aof.manifest"))
      fun w => tool k w [js "printf", MANIFEST] [(APPENDONLY ++ js "/appendonly.aof.manifest", true)] := by
    have hwords : (cmd (script "printf \"" ++ MANIFEST ++
        script "\" > /data/appendonlydir/appendonly.aof.manifest")).words =
        [literal (js "printf"), .quotes :: MANIFEST.map fun c => .char c true] := by decide +kernel
    have hredirects : (cmd (script "printf \"" ++ MANIFEST ++
        script "\" > /data/appendonlydir/appendonly.aof.manifest")).redirects =
        [.toFile false (literal (APPENDONLY ++ js "/appendonly.aof.manifest"))] := by decide +kernel
    exact does_tool (by decide +kernel) hwords (.cons (.quoted MANIFEST) .nil)
      fun s _ => Command.files_literal hredirects
  exact (((hrm.first.inTurn hmkdir).inTurn hcp).inTurn hempty).inTurn hprintf

/-- **The script does what its tools do.** -/
theorem left_eq (r : Restore) (w : Files) :
    (sh k.tools.host k.pipefail r.text k.env w).1.world = r.left k w := by
  cases r with
  | volume name service replicas =>
    have hdoes := does_volume VOLUME_SCRIPT.length false (initial k.env w) rfl rfl rfl
    rw [Restore.text, sh_eq parse_volume]
    exact congrArg Prod.snd hdoes.2.2.2
  | database engine offline =>
    have hparse := parse_snapshot offline
    have hdoes := does_snapshot (k := k) (BACKUP_RECIPES engine).restore.length offline hparse false
      (initial k.env w) rfl rfl rfl
    rw [Restore.text, sh_eq hparse]
    exact congrArg Prod.snd hdoes.2.2.2

end Scripts

/-! ## What a restore leaves -/

section Runs
variable {k : Container} {r : Restore} {w₀ w w' : World} {t : List Call}

def Untouched (w₀ w : World) (t : List Call) : Prop := .startHelper ∉ t ∧ w.files = w₀.files

/-- The helper has not been started, or its tools have done what they do. -/
def Settled (k : Container) (r : Restore) (w₀ w : World) (t : List Call) : Prop :=
  Untouched w₀ w t ∨ .startHelper ∈ t ∧ w.files = r.left k w₀.files

theorem files_effect {text : JsString} {c : Call} {a : Reply c} (hc : c ≠ .startHelper)
    (h : (docker k text).effect c w = some (a, w')) : w'.files = w.files := by
  cases c with
  | startHelper => exact absurd rfl hc
  | waitContainer =>
    obtain ⟨code, -, heq⟩ := Option.map_eq_some_iff.mp h
    cases heq
    rfl
  | _ =>
    cases h
    rfl

/-- None of the calls starts the helper. -/
abbrev Quiet {α : Type} (x : Program k r.text α) : Prop :=
  x.Only fun c : Call => c ≠ .startHelper

theorem quiet_untouched {α : Type} {x : Program k r.text α} (hx : Quiet x) (h : Untouched w₀ w t) :
    x.Ensures (fun _ w t => Untouched w₀ w t) w t := by
  refine hx.ensures ?_ h
  intro c a w w' t hc hI heffect
  refine ⟨?_, (files_effect hc heffect).trans hI.2⟩
  rw [mem_append, mem_singleton, not_or]
  exact ⟨hI.1, Ne.symm hc⟩

theorem quiet_settled {α : Type} {x : Program k r.text α} (hx : Quiet x) (h : Settled k r w₀ w t) :
    x.Ensures (fun _ w t => Settled k r w₀ w t) w t := by
  refine hx.ensures ?_ h
  intro c a w w' t hc hI heffect
  have hfiles := files_effect hc heffect
  rcases hI with hI | hI
  · refine Or.inl ⟨?_, hfiles.trans hI.2⟩
    rw [mem_append, mem_singleton, not_or]
    exact ⟨hI.1, Ne.symm hc⟩
  · exact Or.inr ⟨mem_append_left _ hI.1, hfiles.trans hI.2⟩

/-- Calls that do not start the helper, and what is done behind them. -/
theorem quiet_bind {α β : Type} {x : Program k r.text α} {f : α → Program k r.text β} (hx : Quiet x)
    (h : Untouched w₀ w t)
    (hf : ∀ a w t, Untouched w₀ w t → (f a).Ensures (fun _ w t => Settled k r w₀ w t) w t) :
    (x >>= f).Ensures (fun _ w t => Settled k r w₀ w t) w t :=
  (quiet_untouched hx h).bind hf fun _ _ h => Or.inl h

theorem quiet_await {c : Call} (hc : c ≠ .startHelper) : Quiet (await k r.text c) :=
  Script.only_await (S := docker k r.text) hc

theorem quiet_callIf {condition : Bool} {x : Program k r.text Unit} (hx : Quiet x) :
    Quiet (callIf k r.text condition x) := by
  rw [callIf]
  split
  · exact hx
  · exact Script.only_pure

theorem quiet_containerOf (service : Bool) : Quiet (containerOf k r.text service) := by
  cases service with
  | true => exact Script.only_pure
  | false => exact quiet_await (by simp)

theorem quiet_runs (service : Bool) (c : Option Bool) : Quiet (runs k r.text service c) := by
  rw [runs]
  split
  · exact Script.Only.bind (quiet_await (by simp)) fun _ => Script.only_pure
  · exact Script.only_pure

/-- **The helper is started once**, and whatever it comes to, its tools have done what they do. -/
theorem runOnceWithOutput_ensures (h : Untouched w₀ w t) :
    (runOnceWithOutput k r.text).Ensures (fun _ w t => Settled k r w₀ w t) w t := by
  refine quiet_bind (quiet_await (by simp)) h ?_
  intro _ w₁ t₁ h₁
  refine Script.Ensures.andFinally ?_ fun w t hI =>
    quiet_settled (Script.Only.attempt (quiet_await (by simp)) Script.only_pure) hI
  have hstart : (await k r.text .startHelper).Ensures (fun _ w t => Settled k r w₀ w t) w₁ t₁ := by
    refine Script.ensures_await (S := docker k r.text) (Q := fun _ w t => Settled k r w₀ w t) ?_ ?_
    · exact Or.inl h₁
    intro a w₂ heffect
    have hran : Settled k r w₀ w₂ (t₁ ++ [.startHelper]) := by
      cases heffect
      refine Or.inr ⟨by simp, ?_⟩
      rw [← h₁.2]
      exact left_eq r w₁.files
    exact ⟨hran, hran⟩
  refine hstart.bind ?_ fun _ _ h => h
  intro _ w₂ t₂ h₂
  refine quiet_settled ?_ h₂
  refine Script.Only.bind (quiet_await (by simp)) fun code => ?_
  exact Script.Only.bind (Script.Only.attempt (quiet_await (by simp)) Script.only_pure)
    fun _ => Script.only_pure

theorem runHelper_ensures (h : Untouched w₀ w t) :
    (runHelper k r.text).Ensures (fun _ w t => Settled k r w₀ w t) w t := by
  refine quiet_bind (quiet_await (by simp)) h ?_
  intro _ w₁ t₁ h₁
  refine quiet_bind (quiet_await (by simp)) h₁ ?_
  exact fun _ w₂ t₂ h₂ => runOnceWithOutput_ensures h₂

theorem runRecipe_ensures (h : Untouched w₀ w t) :
    (runRecipe k r.text).Ensures (fun _ w t => Settled k r w₀ w t) w t := by
  refine quiet_bind (quiet_await (by simp)) h ?_
  intro _ w₁ t₁ h₁
  refine quiet_bind (quiet_await (by simp)) h₁ ?_
  intro _ w₂ t₂ h₂
  refine quiet_bind (quiet_await (by simp)) h₂ ?_
  exact fun _ w₃ t₃ h₃ => runOnceWithOutput_ensures h₃

/-- An exit code that is not zero is an error. -/
theorem checked_ensures {x : Program k r.text Nat} (h : x.Ensures (fun _ w t => Settled k r w₀ w t) w t) :
    Script.Ensures (S := docker k r.text) (fun _ w t => Settled k r w₀ w t) w t
      (x >>= fun code => if code ≠ 0 then Script.thrown else pure ()) := by
  refine h.bind ?_ fun _ _ h => h
  intro code w t h
  split
  · exact h
  · exact h

variable {status : BackupStatus}

theorem restoreVolume_ensures {volume : JsString} {service : Bool} {replicas : Nat}
    (h : Untouched w₀ w t) :
    (restoreVolume k r.text status volume service replicas).Ensures
      (fun _ w t => Settled k r w₀ w t) w t := by
  rw [restoreVolume]
  split
  · exact Or.inl h
  refine quiet_bind (quiet_await (by simp)) h ?_
  intro _ w₁ t₁ h₁
  refine quiet_bind (quiet_containerOf service) h₁ ?_
  intro c w₂ t₂ h₂
  refine quiet_bind (quiet_runs service c) h₂ ?_
  intro wasRunning w₃ t₃ h₃
  refine quiet_bind (quiet_callIf (quiet_await (by simp))) h₃ ?_
  intro _ w₄ t₄ h₄
  refine quiet_bind (quiet_callIf (quiet_await (by simp))) h₄ ?_
  intro _ w₅ t₅ h₅
  refine Script.Ensures.andFinally ?_ fun w t hI => quiet_settled ?_ hI
  · refine quiet_bind (quiet_await (by simp)) h₅ ?_
    exact fun _ w₆ t₆ h₆ => checked_ensures (runHelper_ensures h₆)
  · exact Script.Only.bind (quiet_callIf (quiet_await (by simp))) fun _ => quiet_callIf (quiet_await (by simp))

theorem restoreDatabase_ensures (h : Untouched w₀ w t) :
    (restoreDatabase k r.text status).Ensures (fun _ w t => Settled k r w₀ w t) w t := by
  rw [restoreDatabase]
  split
  · exact Or.inl h
  refine quiet_bind (quiet_await (by simp)) h ?_
  intro c w₁ t₁ h₁
  split
  · exact Or.inl h₁
  refine quiet_bind (quiet_await (by simp)) h₁ ?_
  intro _ w₂ t₂ h₂
  exact Script.Ensures.andFinally (checked_ensures (runRecipe_ensures h₂))
    fun w t hI => quiet_settled (quiet_await (by simp)) hI

end Runs

/-- A helper whose `rm` deletes the one file there is, and whose tools fail with these codes
otherwise. -/
def helperFailing (codes : JsString → Nat) : Container where
  tools := {
    exec argv _ w :=
      if argv.head? = some (js "rm") then (0, [], Function.update w (js "/data/dump.rdb") none)
      else (codes (argv.head?.getD []), [], w)
    canOpen _ _ := true
    glob _ _ := [js "./dump.rdb"] }
  pipefail := false
  env _ := js "/backups/b"
  files _ := none
  docker := true

/-- One file in the volume, and no backup. -/
def oneFile : World where
  files path := if path = js "/data/dump.rdb" then some (js "old") else none
  exit := none
  container := some true
  tasks := 0

/-- A restore of the volume, and one of a Redis server: `tar` and `cp` find no backup. -/
def volumeWithoutBackup : Option Unit × World × List Call :=
  ((Restore.volume (js "v") false 1).program
    (helperFailing fun tool => if tool = js "tar" then 1 else 0) .success).run [] oneFile []

def snapshotWithoutBackup : Option Unit × World × List Call :=
  ((Restore.database .redis rfl).program
    (helperFailing fun tool => if tool = js "cp" then 1 else 0) .success).run [] oneFile []

end Aoox.VolumeRestore
