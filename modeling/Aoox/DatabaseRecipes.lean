import Aoox.EnvResolver
import Aoox.ShellTexts

/-! # Backups of databases

A backup runs a dump inside a container of the engine's image, and a restore runs it back.
Both are shell command lines, put together from the recipe of the engine, and only their exit
code says how they went.  Here they are run as a shell runs them, on tools that answer as they
like, with and without `pipefail`.

Which tools must have succeeded for a success to be one is a list (`required`), and so is which
of them the command line does not look at (`hidden`): all of a pipeline but its end, and what
stands in front of `|| true`.  A success is one exactly if the hidden tools succeeded too.
-/
namespace Aoox.DatabaseRecipes
open JsString Shell List Option Function

/-! ## The recipes -/

inductive RestoreMode where
  | online
  | offlineVolume

structure BackupRecipe where
  (extension dump restore : JsString)
  /-- Every database of the server. -/
  (dumpAll restoreAll : Option JsString)
  restoreMode : RestoreMode

def MYSQL_SYSTEM : JsString := script "information_schema|performance_schema|mysql|sys"

/-- Dumps to a file first, and packs it if that went well. -/
def gzipped (dumpCommand : JsString) : JsString :=
  dumpCommand ++ script " > \"$BACKUP_FILE.tmp\" && gzip -c \"$BACKUP_FILE.tmp\" > \"$BACKUP_FILE\"; " ++
    script "s=$?; rm -f \"$BACKUP_FILE.tmp\"; [ \"$s\" -eq 0 ]"

/-- The names of the databases of MySQL and MariaDB. -/
def names (client : JsString) : JsString :=
  client ++ script " -N -h \"$DB_HOST\" -P \"$DB_PORT\" -u root -p\"$DB_PASSWORD\" -e \"SHOW DATABASES\"" ++
    script " | grep -Ev '^(" ++ MYSQL_SYSTEM ++ script ")$'"

def listing (client : JsString) : JsString := script "dbs=$(" ++ names client ++ script ")"

def mysqlDump (dumper : JsString) : JsString :=
  dumper ++ script " -h \"$DB_HOST\" -P \"$DB_PORT\" -u root -p\"$DB_PASSWORD\"" ++
    script " --single-transaction --routines --add-drop-table \"$DB_NAME\""

def mysqlDumpAll (dumper : JsString) : JsString :=
  dumper ++ script " -h \"$DB_HOST\" -P \"$DB_PORT\" -u root -p\"$DB_PASSWORD\"" ++
    script " --single-transaction --routines --add-drop-database --databases $dbs"

/-- MySQL and MariaDB, by their client and the tool that dumps. -/
def mysqlRecipe (client dumper : JsString) : BackupRecipe where
  extension := js "sql.gz"
  dump := gzipped (mysqlDump dumper)
  restore := script "gunzip -c \"$BACKUP_FILE\" | " ++ client ++
    script " -h \"$DB_HOST\" -P \"$DB_PORT\" -u root -p\"$DB_PASSWORD\" \"$DB_NAME\""
  dumpAll := some (gzipped (listing client ++ script " && " ++ mysqlDumpAll dumper))
  restoreAll := some (script "gunzip -c \"$BACKUP_FILE\" | " ++ client ++
    script " -h \"$DB_HOST\" -P \"$DB_PORT\" -u root -p\"$DB_PASSWORD\"")
  restoreMode := .online

/-- Redis and Valkey: the snapshot becomes the base file of a fresh append-only directory. -/
def redisRecipe : BackupRecipe where
  extension := js "rdb"
  dump := script "redis-cli -h \"$DB_HOST\" -p \"$DB_PORT\" -a \"$DB_PASSWORD\" --no-auth-warning" ++
    script " --rdb \"$BACKUP_FILE\" > /dev/null"
  restore := script "rm -rf /data/appendonlydir /data/dump.rdb && mkdir -p /data/appendonlydir && " ++
    script "cp \"$BACKUP_FILE\" /data/appendonlydir/appendonly.aof.1.base.rdb && " ++
    script ": > /data/appendonlydir/appendonly.aof.1.incr.aof && " ++
    script "printf \"file appendonly.aof.1.base.rdb seq 1 type b\nfile appendonly.aof.1.incr.aof seq 1 type i\n\"" ++
    script " > /data/appendonlydir/appendonly.aof.manifest"
  dumpAll := none
  restoreAll := none
  restoreMode := .offlineVolume

def pgDump : JsString :=
  script "PGPASSWORD=\"$DB_PASSWORD\" pg_dump -h \"$DB_HOST\" -p \"$DB_PORT\" -U \"$DB_USER\"" ++
    script " --clean --if-exists \"$DB_NAME\""

def pgDumpAll : JsString :=
  script "PGPASSWORD=\"$DB_PASSWORD\" pg_dumpall -h \"$DB_HOST\" -p \"$DB_PORT\" -U \"$DB_USER\"" ++
    script " --clean --if-exists"

/-- What the tools of MongoDB are called with first. -/
def mongoLogin : JsString :=
  script " --host=\"$DB_HOST\" --port=\"$DB_PORT\" --username=\"$DB_USER\" --password=\"$DB_PASSWORD\" " ++
    script "--authenticationDatabase=admin "

def BACKUP_RECIPES : DatabaseEngine → BackupRecipe
  | .postgres => {
      extension := js "sql.gz"
      dump := gzipped pgDump
      restore := script "gunzip -c \"$BACKUP_FILE\" | PGPASSWORD=\"$DB_PASSWORD\" psql -v ON_ERROR_STOP=1 -q " ++
        script "-h \"$DB_HOST\" -p \"$DB_PORT\" -U \"$DB_USER\" \"$DB_NAME\" > /dev/null"
      dumpAll := some (gzipped pgDumpAll)
      restoreAll := some (script "gunzip -c \"$BACKUP_FILE\" | PGPASSWORD=\"$DB_PASSWORD\" psql -q " ++
        script "-h \"$DB_HOST\" -p \"$DB_PORT\" -U \"$DB_USER\" postgres > /dev/null 2>&1; [ \"$?\" -eq 0 ] || true")
      restoreMode := .online }
  | .mysql => mysqlRecipe (js "mysql") (js "mysqldump")
  | .mariadb => mysqlRecipe (js "mariadb") (js "mariadb-dump")
  | .redis => redisRecipe
  | .valkey => redisRecipe
  | .mongodb => {
      extension := js "archive.gz"
      dump := script "mongodump" ++ mongoLogin ++ script "--db=\"$DB_NAME\" --archive=\"$BACKUP_FILE\" --gzip"
      restore := script "mongorestore" ++ mongoLogin ++ script "--archive=\"$BACKUP_FILE\" --gzip --drop"
      dumpAll := some (script "mongodump" ++ mongoLogin ++ script "--archive=\"$BACKUP_FILE\" --gzip")
      restoreAll := some (script "mongorestore" ++ mongoLogin ++ script "--archive=\"$BACKUP_FILE\" --gzip --drop " ++
        script "--nsExclude=\"admin.*\" --nsExclude=\"local.*\" --nsExclude=\"config.*\"")
      restoreMode := .online }

/-! ## The service -/

inductive BackupScope where
  | database
  | all
  deriving DecidableEq

inductive BackupStatus where
  | success
  | failed
  deriving DecidableEq

/-- `scope` of a new backup. -/
def scopeOf (engine : DatabaseEngine) (backupAllDatabases : Bool) : BackupScope :=
  if backupAllDatabases && (BACKUP_RECIPES engine).dumpAll.isSome then .all else .database

def dumpOf (engine : DatabaseEngine) : BackupScope → JsString
  | .all => (BACKUP_RECIPES engine).dumpAll.getD (BACKUP_RECIPES engine).dump
  | .database => (BACKUP_RECIPES engine).dump

def backupScript (dump : JsString) : JsString :=
  script "mkdir -p \"$(dirname \"$BACKUP_FILE\")\" && " ++ dump ++ script " && stat -c %s \"$BACKUP_FILE\""

def restoreScript (engine : DatabaseEngine) (scope : BackupScope) : JsString :=
  match scope, (BACKUP_RECIPES engine).restoreAll with
  | .all, some restoreAll => restoreAll
  | _, _ => (BACKUP_RECIPES engine).restore

abbrev Files := JsString → Option JsString

/-- The tools of the engine's image: what they answer and do, and which files can be written. -/
structure Tools where
  exec : List JsString → JsString → Files → Nat × JsString × Files
  canOpen : JsString → Files → Bool
  glob : List (Mark CodeUnit) → Files → List JsString

def Tools.host (t : Tools) : Host CodeUnit Files where
  exec := t.exec
  openFile path w := if t.canOpen path w then some (Function.update w path (some [])) else none
  writeFile path output w := Function.update w path (some output)
  isFile path w := (w path).isSome
  glob := t.glob

structure Container where
  tools : Tools
  /-- Whether its shell runs with `pipefail`. -/
  pipefail : Bool
  env : JsString → JsString
  files : Files
  /-- The calls of Docker around it go well. -/
  docker : Bool

/-- `runRecipe`: what the shell has come to, if the container could be run. -/
def runRecipe (k : Container) (script : JsString) : Option (State CodeUnit Files) :=
  if k.docker then some (sh k.tools.host k.pipefail script k.env k.files).1 else none

/-- `backup`: the status of the row; `upload` is how the upload to a destination goes, if there
is one. -/
def backup (k : Container) (engine : DatabaseEngine) (backupAllDatabases : Bool)
    (upload : Option Bool) : BackupStatus :=
  match runRecipe k (backupScript (dumpOf engine (scopeOf engine backupAllDatabases))) with
  | none => .failed
  | some s => if s.status ≠ 0 then .failed else if upload = some false then .failed else .success

/-- `restore` of a successful backup: whether it ends without an error.  A volume is restored
between a stop and a start of the server. -/
def restore (k : Container) (engine : DatabaseEngine) (scope : BackupScope) (stopped started : Bool) :
    Bool :=
  match (BACKUP_RECIPES engine).restoreMode with
  | .online =>
    match runRecipe k (restoreScript engine scope) with
    | none => false
    | some s => s.status = 0
  | .offlineVolume =>
    stopped && started &&
      match runRecipe k (BACKUP_RECIPES engine).restore with
      | none => false
      | some s => s.status = 0

/-! ## What a success is to mean -/

abbrev ToolCall := Shell.Call CodeUnit Files

def Succeeded (tool : JsString) (calls : List ToolCall) : Prop :=
  ∃ call ∈ calls, call.argv.head? = some tool ∧ call.code = 0

/-- The tool that dumps. -/
def dumper : DatabaseEngine → BackupScope → JsString
  | .postgres, .database => js "pg_dump"
  | .postgres, .all => js "pg_dumpall"
  | .mysql, _ => js "mysqldump"
  | .mariadb, _ => js "mariadb-dump"
  | .redis, _ | .valkey, _ => js "redis-cli"
  | .mongodb, _ => js "mongodump"

/-- The tool a dump is restored with. -/
def client : DatabaseEngine → JsString
  | .postgres => js "psql"
  | .mysql => js "mysql"
  | .mariadb => js "mariadb"
  | .redis | .valkey => js "cp"
  | .mongodb => js "mongorestore"

/-- The dump is packed by a tool of its own. -/
def packs : DatabaseEngine → Bool
  | .postgres | .mysql | .mariadb => true
  | .redis | .valkey | .mongodb => false

/-- The names of the databases are asked for first. -/
def lists : DatabaseEngine → BackupScope → Bool
  | .mysql, .all | .mariadb, .all => true
  | _, _ => false

def requiredForBackup (engine : DatabaseEngine) (scope : BackupScope) : List JsString :=
  (if lists engine scope then [client engine] else []) ++ dumper engine scope ::
    if packs engine then [js "gzip"] else []

/-- The tools of a backup that its command line does not look at. -/
def hiddenInBackup (pipefail : Bool) (engine : DatabaseEngine) (scope : BackupScope) : List JsString :=
  if lists engine scope && !pipefail then [client engine] else []

/-- The tools have succeeded, and what was packed is all that was dumped. -/
def BackupSound (engine : DatabaseEngine) (scope : BackupScope) (k : Container) (calls : List ToolCall) :
    Prop :=
  (∀ tool ∈ requiredForBackup engine scope, Succeeded tool calls) ∧
    (packs engine = true → ∃ dump ∈ calls, ∃ pack ∈ calls,
      dump.argv.head? = some (dumper engine scope) ∧ dump.code = 0 ∧
      pack.argv.head? = some (js "gzip") ∧ pack.code = 0 ∧
      pack.before (k.env (js "BACKUP_FILE") ++ js ".tmp") = some dump.output)

def clients : List JsString := [js "psql", js "mysql", js "mariadb", js "mongorestore"]

/-- The tool has succeeded, and if it is a client it has applied all it was given. -/
def Done (applied : ToolCall → Prop) (tool : JsString) (calls : List ToolCall) : Prop :=
  ∃ call ∈ calls, call.argv.head? = some tool ∧ call.code = 0 ∧ (tool ∈ clients → applied call)

def requiredForRestore (engine : DatabaseEngine) : List JsString :=
  if packs engine then [js "gunzip", client engine]
  else match engine with
    | .mongodb => [js "mongorestore"]
    | _ => [js "rm", js "mkdir", js "cp", js "printf"]

/-- The tools of a restore that its command line does not look at. -/
def hiddenInRestore (pipefail : Bool) (engine : DatabaseEngine) (scope : BackupScope) : List JsString :=
  match engine, scope with
  | .postgres, .all => [js "gunzip", js "psql"]
  | _, _ => if packs engine && !pipefail then [js "gunzip"] else []

/-- The tools have succeeded, and the client was given all that was unpacked. -/
def RestoreSound (applied : ToolCall → Prop) (engine : DatabaseEngine) (calls : List ToolCall) : Prop :=
  (∀ tool ∈ requiredForRestore engine, Done applied tool calls) ∧
    (packs engine = true → ∃ unpack ∈ calls, ∃ apply ∈ calls,
      unpack.argv.head? = some (js "gunzip") ∧ unpack.code = 0 ∧
      apply.argv.head? = some (client engine) ∧ apply.code = 0 ∧ applied apply ∧
      apply.stdin = unpack.output)

/-- A client that stops at the first error, and says so by its exit code: `psql` only does if
it is told to. -/
def stopsAtError (argv : List JsString) : Bool :=
  match argv with
  | [] => false
  | tool :: args =>
    if tool = js "psql" then args.contains (js "ON_ERROR_STOP=1") else tool ∈ clients

/-- A client that stops at an error, and does not tell of one, has applied everything. -/
def StopsAtError (applied : ToolCall → Prop) : Prop :=
  ∀ call, stopsAtError call.argv = true → call.code = 0 → applied call

/-! ## The command lines -/

def cmd (text : JsString) : Command CodeUnit := (parse text).getD (.simple [] [] [])

def makeFolder : Command CodeUnit := cmd (script "mkdir -p \"$(dirname \"$BACKUP_FILE\")\"")

def pack : Command CodeUnit := cmd (script "gzip -c \"$BACKUP_FILE.tmp\" > \"$BACKUP_FILE\"")

/-- `gzipped`, with everything in front of the packing. -/
def packed (front : Command CodeUnit) : Command CodeUnit :=
  .seq (.and front pack)
    (.seq (cmd (script "s=$?")) (.seq (cmd (script "rm -f \"$BACKUP_FILE.tmp\""))
      (.and (cmd (script "[ \"$s\" -eq 0 ]")) (cmd (script "stat -c %s \"$BACKUP_FILE\"")))))

/-- The dump a file is packed of. -/
def dumpText : DatabaseEngine → BackupScope → JsString
  | .postgres, .database => pgDump
  | .postgres, .all => pgDumpAll
  | .mysql, .database => mysqlDump (js "mysqldump")
  | .mysql, .all => mysqlDumpAll (js "mysqldump")
  | .mariadb, .database => mysqlDump (js "mariadb-dump")
  | .mariadb, .all => mysqlDumpAll (js "mariadb-dump")
  | engine, _ => (BACKUP_RECIPES engine).dump

def dumpCommand (engine : DatabaseEngine) (scope : BackupScope) : Command CodeUnit :=
  cmd (dumpText engine scope ++ script " > \"$BACKUP_FILE.tmp\"")

/-- What stands in front of the dump. -/
def before (engine : DatabaseEngine) (scope : BackupScope) : Command CodeUnit :=
  if lists engine scope then .and makeFolder (cmd (listing (client engine))) else makeFolder

def IsPacked (engine : DatabaseEngine) (scope : BackupScope) : Prop :=
  parse (backupScript (dumpOf engine scope)) =
    some (packed (.and (before engine scope) (dumpCommand engine scope)))

instance (engine : DatabaseEngine) (scope : BackupScope) : Decidable (IsPacked engine scope) :=
  inferInstanceAs (Decidable (_ = _))

/-- The output goes to the file that is to be packed. -/
def toTemp : Redirect CodeUnit :=
  .toFile false (.quotes :: .var (script "BACKUP_FILE") true ::
    (script ".tmp").map fun c => .char c true)

def toBackup : Redirect CodeUnit := .toFile false [.quotes, .var (script "BACKUP_FILE") true]

def Calls (c : Command CodeUnit) (tool : JsString) (redirects : List (Redirect CodeUnit)) : Prop :=
  c.isProgram tool = true ∧ c.redirects = redirects

instance (c : Command CodeUnit) (tool : JsString) (redirects : List (Redirect CodeUnit)) :
    Decidable (Calls c tool redirects) := inferInstanceAs (Decidable (_ ∧ _))

/-- **What a packed backup is read as**, and what its own lines do. -/
theorem packed_lines (engine : DatabaseEngine) (scope : BackupScope) (h : packs engine = true) :
    IsPacked engine scope ∧ Calls (dumpCommand engine scope) (dumper engine scope) [toTemp] ∧
      (before engine scope).noExit = true ∧ (dumpCommand engine scope).noExit = true ∧
      script "BACKUP_FILE" ∉ (before engine scope).assigned ++ (dumpCommand engine scope).assigned := by
  cases engine with
  | postgres => cases scope <;> decide +kernel
  | mysql => cases scope <;> decide +kernel
  | mariadb => cases scope <;> decide +kernel
  | redis => cases h
  | valkey => cases h
  | mongodb => cases h

theorem lines_around : makeFolder.noExit = true ∧ Calls pack (js "gzip") [toBackup] ∧ pack.noExit = true ∧
    cmd (script "s=$?") = .simple [(js "s", [.var [Alphabet.sign '?'] false])] [] [] ∧
    (cmd (script "rm -f \"$BACKUP_FILE.tmp\"")).noExit = true ∧
    js "s" ∉ (cmd (script "rm -f \"$BACKUP_FILE.tmp\"")).assigned ∧
    cmd (script "[ \"$s\" -eq 0 ]") = .simple [] [literal (word "["), [.quotes, .var (js "s") true],
      literal (word "-eq"), literal (word "0"), literal (word "]")] [] := by
  decide

/-- The names of the databases, in a variable. -/
theorem cmd_listing (engine : DatabaseEngine) (h : engine = .mysql ∨ engine = .mariadb) :
    cmd (listing (client engine)) = .simple [(js "dbs", [.sub (names (client engine)) false])] [] [] := by
  rcases h with rfl | rfl <;> decide +kernel

theorem parse_names (engine : DatabaseEngine) (h : engine = .mysql ∨ engine = .mariadb) :
    ∃ l g : Command CodeUnit, parse (names (client engine)) = some (.pipe l g) ∧
      Calls l (client engine) [] ∧ Calls g (js "grep") [] := by
  refine ⟨cmd (client engine ++
      script " -N -h \"$DB_HOST\" -P \"$DB_PORT\" -u root -p\"$DB_PASSWORD\" -e \"SHOW DATABASES\""),
    cmd (script "grep -Ev '^(" ++ MYSQL_SYSTEM ++ script ")$'"), ?_⟩
  rcases h with rfl | rfl <;> decide +kernel

/-! ## A backup that is packed -/

variable {c : Command CodeUnit} {engine : DatabaseEngine}

section Packed
variable {k : Container} {n : Nat} {s : State CodeUnit Files}

/-- The substitutions of a script in the container. -/
abbrev subOf (k : Container) (n : Nat) := substitute k.tools.host k.pipefail n

abbrev execIn (k : Container) (n : Nat) (c : Command CodeUnit) (tested : Bool)
    (s : State CodeUnit Files) : State CodeUnit Files × JsString :=
  exec k.tools.host k.pipefail (subOf k n) c tested [] s

theorem execIn_grows (c : Command CodeUnit) (tested : Bool) (s : State CodeUnit Files) :
    s.calls <+: (execIn k n c tested s).1.calls :=
  exec_grows (fun t s => substitute_grows n t s) c tested [] s

theorem execIn_vars (c : Command CodeUnit) {name : JsString} (hname : name ∉ c.assigned) (tested : Bool)
    (s : State CodeUnit Files) : (execIn k n c tested s).1.vars name = s.vars name :=
  exec_vars (fun _ _ => rfl) c hname tested [] s

section Ok
variable {c d : Command CodeUnit} {tested : Bool} (hc : c.noExit = true) (hlive : s.errexit = false)
  (hexited : s.exited = false)
include hc hlive hexited

theorem execIn_and_ok (hok : (execIn k n (.and c d) tested s).1.status = 0) :
    (execIn k n c true s).1.status = 0 ∧ (execIn k n c true s).1.errexit = false ∧
      (execIn k n c true s).1.exited = false ∧
      (execIn k n (.and c d) tested s).1 = (execIn k n d tested (execIn k n c true s).1).1 :=
  exec_and_ok (fun t s => substitute_flags n t s) hlive hexited hc hok

theorem execIn_seq_ok (hok : (execIn k n (.seq c d) tested s).1.status = 0) :
    (execIn k n c tested s).1.errexit = false ∧ (execIn k n c tested s).1.exited = false ∧
      (execIn k n (.seq c d) tested s).1 = (execIn k n d tested (execIn k n c tested s).1).1 :=
  exec_seq_ok (fun t s => substitute_flags n t s) hlive hexited hc hok

end Ok

/-- **The status of the packing decides**: it is kept while the file is removed. -/
theorem packed_ok {front : Command CodeUnit} (hfront : front.noExit = true) (hlive : s.errexit = false)
    (hexited : s.exited = false) (hok : (execIn k n (packed front) false s).1.status = 0) :
    (execIn k n (.and front pack) false s).1.status = 0 ∧
      (execIn k n (.and front pack) false s).1.calls <+: (execIn k n (packed front) false s).1.calls := by
  obtain ⟨-, -, hgzip, hkeepLine, hrmExit, hrmVars, htestLine⟩ := lines_around
  have hpack : (Command.and front pack).noExit = true := by
    rw [Command.noExit, hfront, hgzip]
    rfl
  obtain ⟨hlive₁, hexited₁, hseq⟩ := execIn_seq_ok hpack hlive hexited hok
  refine ⟨?_, hseq ▸ execIn_grows _ _ _⟩
  rw [packed, hseq] at hok
  generalize (execIn k n (.and front pack) false s).1 = s₁ at hlive₁ hexited₁ hok ⊢
  have hkeep : execIn k n (cmd (script "s=$?")) false s₁ =
      (s₁.assign (js "s") (numeral s₁.status) 0, []) := by
    rw [hkeepLine]
    exact exec_keepStatus hlive₁
  obtain ⟨-, -, hseq₂⟩ := execIn_seq_ok (hkeepLine ▸ rfl) hlive₁ hexited₁ hok
  rw [hseq₂, hkeep] at hok
  -- `rm` changes no variable
  obtain ⟨hlive₂, hexited₂, hseq₃⟩ := execIn_seq_ok (s := s₁.assign (js "s") (numeral s₁.status) 0)
    hrmExit hlive₁ hexited₁ hok
  have hvars : (execIn k n (cmd (script "rm -f \"$BACKUP_FILE.tmp\"")) false
      (s₁.assign (js "s") (numeral s₁.status) 0)).1.vars (js "s") = _ :=
    execIn_vars _ hrmVars _ _
  rw [hseq₃] at hok
  obtain ⟨htest, -, -, -⟩ := execIn_and_ok (htestLine ▸ rfl) hlive₂ hexited₂ hok
  rw [htestLine, execIn,
    exec_testZero hlive₂ (by decide) (hvars.trans (s₁.assign_vars_self ..))] at htest
  by_contra hne
  simp [hne] at htest

abbrev pathIn (s : State CodeUnit Files) : JsString := s.vars (script "BACKUP_FILE")

theorem value_backupFile : s.value (script "BACKUP_FILE") = pathIn s := if_neg (by decide)

theorem files_toTemp (h : c.redirects = [toTemp]) :
    c.files s = [(pathIn s ++ script ".tmp", true)] := by
  rw [c.files_eq, h, toTemp, targets, expandWord_plain (by decide)]
  simp only [marks, marks_quoted, value_backupFile, targets, Bool.not_false]
  have htext : text (Mark.quotes :: (expansion true (pathIn s) ++
      (script ".tmp").map fun c => .char c true)) = pathIn s ++ script ".tmp" := by
    show text (expansion true (pathIn s) ++ (script ".tmp").map fun c => .char c true) = _
    rw [text_append, text_expansion, text_quoted]
  rw [htext]

theorem files_toBackup (h : c.redirects = [toBackup]) : c.files s = [(pathIn s, true)] := by
  rw [c.files_eq, h, toBackup, targets, expandWord_plain (by decide)]
  simp only [marks, value_backupFile, targets, Bool.not_false, append_nil]
  have htext : text (Mark.quotes :: expansion true (pathIn s)) = pathIn s := text_expansion _
  rw [htext]

theorem execIn_program {tool : JsString} (hc : c.isProgram tool = true) (hlive : s.errexit = false)
    (tested : Bool) :
    Ran k.tools.host (tool :: c.args k.tools.host s) (c.files s) [] s (execIn k n c tested s) := by
  obtain ⟨r, hr, hran⟩ := exec_program k.tools.host k.pipefail (subOf k n) s hc tested []
  rw [settle_of_false (hran.errexit.trans hlive)] at hr
  rw [execIn, hr]
  exact hran

theorem openAll_one {path : JsString} {w w' : Files} (h : openAll k.tools.host [path] w = some w') :
    w' = update w path (some []) := by
  simp only [openAll, Tools.host] at h
  split_ifs at h
  · exact (some.inj h).symm
  · cases h

/-- **What was dumped is what is packed.** -/
theorem dump_pack_ok {front dump : Command CodeUnit} {tool : JsString} (hfront : front.noExit = true)
    (hdumpExit : dump.noExit = true) (hassigned : script "BACKUP_FILE" ∉ front.assigned ++ dump.assigned)
    (hdump : Calls dump tool [toTemp]) (hlive : s.errexit = false) (hexited : s.exited = false)
    (hok : (execIn k n (.and (.and front dump) pack) false s).1.status = 0) :
    (execIn k n front true s).1.status = 0 ∧
      ∃ d g : ToolCall, (execIn k n (.and (.and front dump) pack) false s).1.calls =
          (execIn k n front true s).1.calls ++ [d, g] ∧
        d.argv.head? = some tool ∧ d.code = 0 ∧ g.argv.head? = some (js "gzip") ∧ g.code = 0 ∧
        g.before (pathIn s ++ script ".tmp") = some d.output := by
  have hboth : (Command.and front dump).noExit = true := by
    rw [Command.noExit, hfront, hdumpExit]
    rfl
  obtain ⟨hok₂, hlive₂, -, heq₂⟩ := execIn_and_ok hboth hlive hexited hok
  obtain ⟨hok₁, hlive₁, -, heq₁⟩ := execIn_and_ok hfront hlive hexited hok₂
  have hpath₁ : pathIn (execIn k n front true s).1 = pathIn s :=
    execIn_vars front (fun h => hassigned (mem_append_left _ h)) true s
  have hpath₂ : pathIn (execIn k n (.and front dump) true s).1 = pathIn s :=
    execIn_vars (.and front dump) hassigned true s
  rw [heq₂] at hok ⊢
  -- the dump writes its output to the file
  have hran₁ := execIn_program (k := k) (n := n) hdump.1 hlive₁ true
  rw [files_toTemp hdump.2, hpath₁] at hran₁
  obtain ⟨d, hcalls₁, hargv₁, -, hcode₁, -, houtput, hdeliver⟩ := hran₁.of_ok (heq₁ ▸ hok₂)
  -- and `gzip` finds it there
  obtain ⟨-, ⟨hpack, htarget⟩, -⟩ := lines_around
  have hran₂ := execIn_program (k := k) (n := n) hpack hlive₂ false
  rw [files_toBackup htarget, hpath₂] at hran₂
  obtain ⟨g, hcalls₂, hargv₂, -, hcode₂, hopen, -, -⟩ := hran₂.of_ok hok
  refine ⟨hok₁, d, g, ?_, by rw [hargv₁]; rfl, hcode₁, by rw [hargv₂]; rfl, hcode₂, ?_⟩
  · rw [hcalls₂, heq₁, hcalls₁, append_assoc]
    rfl
  · have hworld : (execIn k n (.and front dump) true s).1.world (pathIn s ++ script ".tmp") =
        some d.output := by
      rw [heq₁, hdeliver, houtput]
      exact update_self _ _ _
    have hne : pathIn s ++ script ".tmp" ≠ pathIn s := by
      intro heq
      have hlength := congrArg List.length heq
      rw [length_append] at hlength
      have htmp : (script ".tmp").length = 4 := by decide
      omega
    rw [openAll_one hopen, update_of_ne hne, hworld]

/-- **The names of the databases.** -/
theorem listing_ok (h : engine = .mysql ∨ engine = .mariadb) {m : Nat} (hlive : s.errexit = false)
    (hok : (execIn k (m + 1) (cmd (listing (client engine))) true s).1.status = 0) :
    ∃ l g : ToolCall,
      (execIn k (m + 1) (cmd (listing (client engine))) true s).1.calls = s.calls ++ [l, g] ∧
        l.argv.head? = some (client engine) ∧ g.argv.head? = some (js "grep") ∧ g.code = 0 ∧
        (k.pipefail = true → l.code = 0) := by
  obtain ⟨l, g, hparse, hl, hg⟩ := parse_names engine h
  obtain ⟨r, r', hran, hran', hpipe⟩ := exec_pipe_programs k.tools.host k.pipefail (subOf k m) hl.1 hg.1
    hlive false []
  rw [l.files_eq, hl.2] at hran
  rw [g.files_eq, hg.2] at hran'
  obtain ⟨lc, hcalls, hargv, -, hcode, -⟩ := hran.of_noFiles
  obtain ⟨gc, hcalls', hargv', -, hcode', -⟩ := hran'.of_noFiles
  have hexec : (execIn k (m + 1) (cmd (listing (client engine))) true s).1.status =
        pipeStatus k.pipefail r.1.status r'.1.status ∧
      (execIn k (m + 1) (cmd (listing (client engine))) true s).1.calls = r'.1.calls := by
    rw [cmd_listing engine h, execIn, exec_assignSub hlive]
    show (run _ _ _ _ _).1.status = _ ∧ (run _ _ _ _ _).1.calls = _
    rw [run_succ hparse, hpipe]
    exact ⟨rfl, rfl⟩
  rw [hexec.1] at hok
  obtain ⟨hlast, hfirst⟩ := pipeStatus_eq_zero.mp hok
  refine ⟨lc, gc, ?_, by rw [hargv]; rfl, by rw [hargv']; rfl, hcode'.trans hlast,
    fun hpipefail => hcode.trans (hfirst hpipefail)⟩
  rw [hexec.2, hcalls']
  show r.1.calls ++ [gc] = _
  rw [hcalls, append_assoc]
  rfl

end Packed

abbrev begin (k : Container) : State CodeUnit Files := Shell.initial k.env k.files

variable {k : Container} {s : State CodeUnit Files}

theorem runRecipe_eq {t : JsString} (hparse : parse t = some c) (h : runRecipe k t = some s) :
    s = (execIn k t.length c false (begin k)).1 := by
  rw [runRecipe] at h
  split_ifs at h
  rw [← some.inj h, sh_eq hparse]

theorem backupScript_length (dump : JsString) : ∃ m, (backupScript dump).length = m + 1 := by
  refine Nat.exists_eq_succ_of_ne_zero fun hzero => ?_
  rw [length_eq_zero_iff, backupScript, append_assoc, append_eq_nil_iff] at hzero
  exact absurd hzero.1 (by decide)

variable {scope : BackupScope}

/-- **A packed backup that succeeds.** -/
theorem packed_sound (h : packs engine = true)
    (hrun : runRecipe k (backupScript (dumpOf engine scope)) = some s) (hok : s.status = 0) :
    BackupSound engine scope k s.calls ↔
      ∀ tool ∈ hiddenInBackup k.pipefail engine scope, Succeeded tool s.calls := by
  obtain ⟨m, hm⟩ := backupScript_length (dumpOf engine scope)
  obtain ⟨hparse, hdump, hbeforeExit, hdumpExit, hassigned⟩ := packed_lines engine scope h
  obtain rfl := runRecipe_eq hparse hrun
  rw [hm] at hok ⊢
  have hfront : (Command.and (before engine scope) (dumpCommand engine scope)).noExit = true := by
    rw [Command.noExit, hbeforeExit, hdumpExit]
    rfl
  obtain ⟨hok₁, hprefix⟩ := packed_ok hfront rfl rfl hok
  obtain ⟨hbefore, d, g, hcalls, hd, hdcode, hg, hgcode, hdata⟩ := dump_pack_ok hbeforeExit hdumpExit
    hassigned hdump rfl rfl hok₁
  have hfront' := (prefix_append _ [d, g]).trans (hcalls ▸ hprefix)
  rw [hcalls] at hprefix
  generalize (execIn k (m + 1) (packed (.and (before engine scope) (dumpCommand engine scope))) false
    (begin k)).1.calls = calls at hprefix hfront' ⊢
  have hlisted : lists engine scope = true → ∃ l ∈ calls,
      l.argv.head? = some (client engine) ∧ (k.pipefail = true → l.code = 0) := by
    intro hlists
    have hengine : engine = .mysql ∨ engine = .mariadb := by
      cases engine <;> cases scope <;> simp [lists] at hlists ⊢
    rw [before, if_pos hlists] at hbefore hfront'
    obtain ⟨-, hlive, -, heq⟩ := execIn_and_ok lines_around.1 rfl rfl hbefore
    rw [heq] at hbefore hfront'
    obtain ⟨l, names, hlcalls, hl, -, -, hpipefail⟩ := listing_ok hengine hlive hbefore
    exact ⟨l, hfront'.subset (by simp [hlcalls]), hl, hpipefail⟩
  constructor
  · rintro ⟨hrequired, -⟩ tool htool
    rw [hiddenInBackup] at htool
    split_ifs at htool with hlists
    · rw [Bool.and_eq_true] at hlists
      refine hrequired tool ?_
      rw [requiredForBackup, if_pos hlists.1]
      exact mem_append_left _ htool
    · exact absurd htool not_mem_nil
  · intro hhidden
    refine ⟨?_, fun _ => ⟨d, hprefix.subset (by simp), g, hprefix.subset (by simp), hd, hdcode, hg, hgcode,
      hdata⟩⟩
    intro tool htool
    rw [requiredForBackup, if_pos h, mem_append, mem_cons, mem_singleton] at htool
    rcases htool with htool | rfl | rfl
    · split_ifs at htool with hlists
      · obtain ⟨l, hlmem, hl, hpipefail⟩ := hlisted hlists
        obtain rfl := mem_singleton.mp htool
        cases hk : k.pipefail with
        | true => exact ⟨l, hlmem, hl, hpipefail hk⟩
        | false => exact hhidden _ (by simp [hiddenInBackup, hlists, hk])
      · exact absurd htool not_mem_nil
    · exact ⟨d, hprefix.subset (by simp), hd, hdcode⟩
    · exact ⟨g, hprefix.subset (by simp), hg, hgcode⟩

/-! ## The other backups -/

/-- The tool puts the backup where it is to be. -/
def IsPlain (engine : DatabaseEngine) (scope : BackupScope) : Prop :=
  parse (backupScript (dumpOf engine scope)) =
      some (.and (.and makeFolder (cmd (dumpOf engine scope))) (cmd (script "stat -c %s \"$BACKUP_FILE\""))) ∧
    (cmd (dumpOf engine scope)).chained = [dumper engine scope]

instance (engine : DatabaseEngine) (scope : BackupScope) : Decidable (IsPlain engine scope) :=
  inferInstanceAs (Decidable (_ ∧ _))

theorem isPlain (engine : DatabaseEngine) (scope : BackupScope) (h : packs engine = false) :
    IsPlain engine scope := by
  cases engine with
  | postgres => cases h
  | mysql => cases h
  | mariadb => cases h
  | redis => cases scope <;> decide +kernel
  | valkey => cases scope <;> decide +kernel
  | mongodb => cases scope <;> decide +kernel

theorem noExit_plain (engine : DatabaseEngine) (scope : BackupScope) (h : packs engine = false) :
    (Command.and (.and makeFolder (cmd (dumpOf engine scope)))
      (cmd (script "stat -c %s \"$BACKUP_FILE\""))).noExit = true := by
  cases engine with
  | postgres => cases h
  | mysql => cases h
  | mariadb => cases h
  | redis => cases scope <;> decide +kernel
  | valkey => cases scope <;> decide +kernel
  | mongodb => cases scope <;> decide +kernel

theorem plain_sound (h : packs engine = false)
    (hrun : runRecipe k (backupScript (dumpOf engine scope)) = some s) (hok : s.status = 0) :
    BackupSound engine scope k s.calls := by
  obtain rfl := runRecipe_eq (isPlain engine scope h).1 hrun
  have hall := exec_chained_ok (fun t s => substitute_flags _ t s) (fun t s => substitute_grows _ t s) (noExit_plain engine scope h) rfl rfl hok
  have hlists : lists engine scope = false := by
    cases engine <;> first | rfl | cases h
  refine ⟨?_, fun hpacks => by rw [h] at hpacks; cases hpacks⟩
  intro tool htool
  rw [requiredForBackup, if_neg (by simp [hlists]), if_neg (by simp [h]), nil_append,
    mem_singleton] at htool
  subst htool
  refine hall _ ?_
  simp only [Command.chained, (isPlain engine scope h).2, mem_append, mem_singleton, or_true,
    true_or]

/-- **Every backup that succeeds** is sound exactly if its hidden tools have succeeded. -/
theorem backup_sound (hrun : runRecipe k (backupScript (dumpOf engine scope)) = some s)
    (hok : s.status = 0) :
    BackupSound engine scope k s.calls ↔
      ∀ tool ∈ hiddenInBackup k.pipefail engine scope, Succeeded tool s.calls := by
  cases h : packs engine with
  | true => exact packed_sound h hrun hok
  | false =>
    have hlists : lists engine scope = false := by
      cases engine <;> first | rfl | cases h
    refine iff_of_true (plain_sound h hrun hok) ?_
    simp [hiddenInBackup, hlists]

/-! ## A restore through a pipeline -/

def unpack : Command CodeUnit := cmd (script "gunzip -c \"$BACKUP_FILE\"")

def clientText : DatabaseEngine → BackupScope → JsString
  | .postgres, .database => script "PGPASSWORD=\"$DB_PASSWORD\" psql -v ON_ERROR_STOP=1 -q " ++
      script "-h \"$DB_HOST\" -p \"$DB_PORT\" -U \"$DB_USER\" \"$DB_NAME\" > /dev/null"
  | .postgres, .all => script "PGPASSWORD=\"$DB_PASSWORD\" psql -q " ++
      script "-h \"$DB_HOST\" -p \"$DB_PORT\" -U \"$DB_USER\" postgres > /dev/null 2>&1"
  | engine, .database => client engine ++
      script " -h \"$DB_HOST\" -P \"$DB_PORT\" -u root -p\"$DB_PASSWORD\" \"$DB_NAME\""
  | engine, .all => client engine ++ script " -h \"$DB_HOST\" -P \"$DB_PORT\" -u root -p\"$DB_PASSWORD\""

/-- The status does not count: whatever it is, it is zero behind this. -/
def regardless : Command CodeUnit := cmd (script "[ \"$?\" -eq 0 ] || true")

def restoreCommand (engine : DatabaseEngine) (scope : BackupScope) : Command CodeUnit :=
  let pipeline := Command.pipe unpack (cmd (clientText engine scope))
  if engine = .postgres ∧ scope = .all then .seq pipeline regardless else pipeline

/-- The restore is a pipeline of `gunzip` and the client, which stops at an error, but not where
the status does not count. -/
def IsPiped (engine : DatabaseEngine) (scope : BackupScope) : Prop :=
  parse (restoreScript engine scope) = some (restoreCommand engine scope) ∧
    (cmd (clientText engine scope)).isProgram (client engine) = true ∧
    (engine = .postgres → scope = .database →
      literal (js "ON_ERROR_STOP=1") ∈ (cmd (clientText engine scope)).words.tail)

instance (engine : DatabaseEngine) (scope : BackupScope) : Decidable (IsPiped engine scope) :=
  inferInstanceAs (Decidable (_ ∧ _))

theorem isPiped (engine : DatabaseEngine) (scope : BackupScope) (h : packs engine = true) :
    IsPiped engine scope := by
  cases engine with
  | postgres => cases scope <;> decide +kernel
  | mysql => cases scope <;> decide +kernel
  | mariadb => cases scope <;> decide +kernel
  | redis => cases h
  | valkey => cases h
  | mongodb => cases h

theorem calls_unpack : Calls unpack (js "gunzip") [] := by decide

theorem isOwn_regardless : regardless.isOwn = true := by decide

section Piped
variable {k : Container} {n : Nat} {s : State CodeUnit Files}

/-- **The pipeline**: `gunzip` is called, and the client, if it is called, reads all that
`gunzip` has put out. -/
theorem execIn_pipeline (scope : BackupScope) (h : packs engine = true)
    (hlive : s.errexit = false) :
    ∃ g : ToolCall, g.argv.head? = some (js "gunzip") ∧
      (((execIn k n (.pipe unpack (cmd (clientText engine scope))) false s).1.status ≠ 0 ∧
          (execIn k n (.pipe unpack (cmd (clientText engine scope))) false s).1.calls = s.calls ++ [g]) ∨
        ∃ c : ToolCall, c.argv.head? = some (client engine) ∧ c.stdin = g.output ∧
          (engine = .postgres → scope = .database → stopsAtError c.argv = true) ∧
          (execIn k n (.pipe unpack (cmd (clientText engine scope))) false s).1.calls = s.calls ++ [g, c] ∧
          (execIn k n (.pipe unpack (cmd (clientText engine scope))) false s).1.status =
            pipeStatus k.pipefail g.code c.code) := by
  obtain ⟨-, hclient, hstop⟩ := isPiped engine scope h
  obtain ⟨r, r', hran, hran', hpipe⟩ := exec_pipe_programs k.tools.host k.pipefail (subOf k n)
    calls_unpack.1 hclient hlive false []
  rw [unpack.files_eq, calls_unpack.2] at hran
  obtain ⟨g, hgcalls, hgargv, -, hgcode, hgoutput⟩ := hran.of_noFiles
  refine ⟨g, by rw [hgargv]; rfl, ?_⟩
  rw [execIn, hpipe]
  rcases hran'.calls with ⟨hstatus, hcalls⟩ | ⟨c, hcalls, hargv, hstdin, hcode, -⟩
  · refine Or.inl ⟨?_, hcalls.trans hgcalls⟩
    show pipeStatus _ _ _ ≠ 0
    rw [ne_eq, pipeStatus_eq_zero, hstatus]
    exact fun habsurd => Nat.one_ne_zero habsurd.1
  · refine Or.inr ⟨c, by rw [hargv]; rfl, hstdin.trans hgoutput.symm, ?_, ?_, ?_⟩
    · rintro rfl rfl
      have hmem := mem_args k.tools.host (s.subshell r.1) (hstop rfl rfl) (by decide)
        (by decide)
      rw [hargv, stopsAtError]
      show (if js "psql" = js "psql" then _ else _) = true
      rw [if_pos rfl]
      exact contains_iff_mem.mpr hmem
    · show r'.1.calls = _
      rw [hcalls]
      show r.1.calls ++ [c] = _
      rw [hgcalls, append_assoc]
      rfl
    · show pipeStatus _ _ _ = _
      rw [hgcode, hcode]

end Piped

variable {calls : List ToolCall}

section Piped
variable {applied : ToolCall → Prop} {engine : DatabaseEngine} {g c : ToolCall}

theorem client_ne_gunzip (engine : DatabaseEngine) : client engine ≠ js "gunzip" := by
  cases engine <;> decide

theorem client_mem (h : packs engine = true) : client engine ∈ clients := by
  cases engine <;> first | decide | cases h

/-- A client that is called stops at an error, but `psql` only if it is told to. -/
theorem stops_of_head (h : packs engine = true) (hne : engine ≠ .postgres)
    (hc : c.argv.head? = some (client engine)) : stopsAtError c.argv = true := by
  obtain ⟨args, hargs⟩ : ∃ args, c.argv = client engine :: args := by
    cases hargv : c.argv with
    | nil => rw [hargv] at hc; cases hc
    | cons tool args =>
      rw [hargv] at hc
      exact ⟨args, by rw [some.inj hc]⟩
  rw [hargs, stopsAtError]
  have hpsql : client engine ≠ js "psql" := by
    cases engine <;> first | exact absurd rfl hne | decide
  rw [if_neg hpsql]
  exact decide_eq_true (client_mem h)

theorem done_gunzip (hg : g.argv.head? = some (js "gunzip"))
    (hcalls : calls = [g] ∨ (c.argv.head? = some (client engine) ∧ calls = [g, c])) :
    Done applied (js "gunzip") calls ↔ g.code = 0 := by
  have hclients : js "gunzip" ∉ clients := by decide
  constructor
  · rintro ⟨call, hmem, hhead, hcode, -⟩
    rcases hcalls with rfl | ⟨hc, rfl⟩
    · exact mem_singleton.mp hmem ▸ hcode
    · simp only [mem_cons, not_mem_nil, or_false] at hmem
      rcases hmem with rfl | rfl
      · exact hcode
      · exact absurd (some.inj (hc.symm.trans hhead)) (client_ne_gunzip engine)
  · intro hcode
    refine ⟨g, ?_, hg, hcode, fun habsurd => absurd habsurd hclients⟩
    rcases hcalls with rfl | ⟨-, rfl⟩ <;> exact mem_cons_self

theorem done_client (h : packs engine = true) (hg : g.argv.head? = some (js "gunzip"))
    (hc : c.argv.head? = some (client engine)) :
    Done applied (client engine) [g, c] ↔ c.code = 0 ∧ applied c := by
  constructor
  · rintro ⟨call, hmem, hhead, hcode, happlied⟩
    simp only [mem_cons, not_mem_nil, or_false] at hmem
    rcases hmem with rfl | rfl
    · exact absurd (some.inj (hhead.symm.trans hg)) (client_ne_gunzip engine)
    · exact ⟨hcode, happlied (client_mem h)⟩
  · rintro ⟨hcode, happlied⟩
    exact ⟨c, by simp, hc, hcode, fun _ => happlied⟩

theorem not_done_client (hg : g.argv.head? = some (js "gunzip")) :
    ¬ Done applied (client engine) [g] := by
  rintro ⟨call, hmem, hhead, -⟩
  obtain rfl := mem_singleton.mp hmem
  exact client_ne_gunzip engine (some.inj (hhead.symm.trans hg))

/-- **A pipeline is sound** exactly if both its ends have succeeded. -/
theorem restoreSound_iff (h : packs engine = true) (hg : g.argv.head? = some (js "gunzip"))
    (hcalls : calls = [g] ∨
      (c.argv.head? = some (client engine) ∧ c.stdin = g.output ∧ calls = [g, c])) :
    RestoreSound applied engine calls ↔
      Done applied (js "gunzip") calls ∧ Done applied (client engine) calls := by
  have hrequired : requiredForRestore engine = [js "gunzip", client engine] := if_pos h
  constructor
  · rintro ⟨hdone, -⟩
    rw [hrequired] at hdone
    exact ⟨hdone _ (by simp), hdone _ (by simp)⟩
  · rintro ⟨hgunzip, hclient⟩
    refine ⟨?_, fun _ => ?_⟩
    · rw [hrequired]
      intro tool htool
      simp only [mem_cons, not_mem_nil, or_false] at htool
      rcases htool with rfl | rfl
      · exact hgunzip
      · exact hclient
    · rcases hcalls with rfl | ⟨hc, hstdin, rfl⟩
      · exact absurd hclient (not_done_client hg)
      · have hgcode := (done_gunzip hg (Or.inr ⟨hc, rfl⟩)).mp hgunzip
        obtain ⟨hccode, happlied⟩ := (done_client h hg hc).mp hclient
        exact ⟨g, by simp, c, by simp, hg, hgcode, hc, hccode, happlied, hstdin⟩

end Piped

variable {applied : ToolCall → Prop}

/-- **A restore through a pipeline that succeeds.** -/
theorem piped_sound (happlied : StopsAtError applied) (h : packs engine = true)
    (hrun : runRecipe k (restoreScript engine scope) = some s) (hok : s.status = 0) :
    RestoreSound applied engine s.calls ↔
      ∀ tool ∈ hiddenInRestore k.pipefail engine scope, Done applied tool s.calls := by
  obtain rfl := runRecipe_eq (isPiped engine scope h).1 hrun
  obtain ⟨g, hg, hpipeline⟩ := execIn_pipeline (k := k) (n := (restoreScript engine scope).length)
    (s := begin k) scope h rfl
  by_cases hregardless : engine = .postgres ∧ scope = .all
  · obtain ⟨rfl, rfl⟩ := hregardless
    have hcalls : (execIn k (restoreScript .postgres .all).length (restoreCommand .postgres .all) false
        (begin k)).1.calls = (execIn k (restoreScript .postgres .all).length
          (.pipe unpack (cmd (clientText .postgres .all))) false (begin k)).1.calls := by
      rw [restoreCommand, if_pos ⟨rfl, rfl⟩]
      exact exec_seq_own isOwn_regardless _ _ _
    rw [hcalls]
    have hhidden : ∀ calls : List ToolCall,
        (∀ tool ∈ hiddenInRestore k.pipefail .postgres .all, Done applied tool calls) ↔
          Done applied (js "gunzip") calls ∧ Done applied (client .postgres) calls := by
      intro calls
      simp [hiddenInRestore, client]
    rw [hhidden]
    rcases hpipeline with ⟨-, hcalls'⟩ | ⟨c, hc, hstdin, -, hcalls', -⟩
    · rw [hcalls']
      exact restoreSound_iff (c := g) h hg (Or.inl rfl)
    · rw [hcalls']
      exact restoreSound_iff h hg (Or.inr ⟨hc, hstdin, rfl⟩)
  · rw [restoreCommand, if_neg hregardless] at hok ⊢
    rcases hpipeline with ⟨hne, -⟩ | ⟨c, hc, hstdin, hstop, hcalls, hstatus⟩
    · exact absurd hok hne
    rw [hcalls]
    rw [hstatus, pipeStatus_eq_zero] at hok
    have hstops : stopsAtError c.argv = true := by
      by_cases hpostgres : engine = .postgres
      · cases scope with
        | database => exact hstop hpostgres rfl
        | all => exact absurd ⟨hpostgres, rfl⟩ hregardless
      · exact stops_of_head h hpostgres hc
    have hclient : Done applied (client engine) [g, c] :=
      (done_client h hg hc).mpr ⟨hok.1, happlied c hstops hok.1⟩
    have hsound : RestoreSound applied engine [g, c] ↔ _ :=
      restoreSound_iff h hg (Or.inr ⟨hc, hstdin, rfl⟩)
    show RestoreSound applied engine [g, c] ↔ ∀ tool ∈ _, Done applied tool [g, c]
    rw [hsound, and_iff_left hclient]
    have hhidden : hiddenInRestore k.pipefail engine scope =
        if packs engine && !k.pipefail then [js "gunzip"] else [] := by
      cases engine <;> cases scope <;> first | rfl | exact absurd ⟨rfl, rfl⟩ hregardless
    rw [hhidden, h, Bool.true_and]
    cases hk : k.pipefail with
    | true => simpa using (done_gunzip hg (Or.inr ⟨hc, rfl⟩)).mpr (hok.2 hk)
    | false => simp

/-! ## The other restores -/

/-- All commands are joined by `&&`. -/
def IsChained (engine : DatabaseEngine) (scope : BackupScope) : Prop :=
  (parse (restoreScript engine scope)).map (fun c => (c.noExit, c.chained)) =
    some (true, requiredForRestore engine)

instance (engine : DatabaseEngine) (scope : BackupScope) : Decidable (IsChained engine scope) :=
  inferInstanceAs (Decidable (_ = _))

theorem isChained (engine : DatabaseEngine) (scope : BackupScope) (h : packs engine = false) :
    IsChained engine scope := by
  cases engine with
  | postgres => cases h
  | mysql => cases h
  | mariadb => cases h
  | redis => cases scope <;> decide +kernel
  | valkey => cases scope <;> decide +kernel
  | mongodb => cases scope <;> decide +kernel

theorem chained_sound (happlied : StopsAtError applied) (h : packs engine = false)
    (hrun : runRecipe k (restoreScript engine scope) = some s) (hok : s.status = 0) :
    RestoreSound applied engine s.calls := by
  obtain ⟨c, hparse, hc⟩ := map_eq_some_iff.mp (isChained engine scope h)
  obtain ⟨hnoExit, hchained⟩ := Prod.mk.inj hc
  obtain rfl := runRecipe_eq hparse hrun
  have hall := exec_chained_ok (fun t s => substitute_flags _ t s) (fun t s => substitute_grows _ t s) hnoExit rfl rfl hok
  refine ⟨?_, fun hpacks => by rw [h] at hpacks; cases hpacks⟩
  intro tool htool
  obtain ⟨call, hmem, hhead, hcode⟩ := hall tool (hchained ▸ htool)
  refine ⟨call, hmem, hhead, hcode, fun hclient => happlied call ?_ hcode⟩
  cases hargv : call.argv with
  | nil => rw [hargv] at hhead; cases hhead
  | cons name args =>
    rw [hargv] at hhead
    obtain rfl : name = tool := some.inj hhead
    have hpsql : name ≠ js "psql" := by
      have hmem' : js "psql" ∉ requiredForRestore engine := by
        cases engine <;> first | decide | cases h
      rintro rfl
      exact hmem' htool
    rw [stopsAtError, if_neg hpsql]
    exact decide_eq_true hclient

/-- **Every restore that succeeds** is sound exactly if its hidden tools have succeeded. -/
theorem restore_sound (happlied : StopsAtError applied)
    (hrun : runRecipe k (restoreScript engine scope) = some s) (hok : s.status = 0) :
    RestoreSound applied engine s.calls ↔
      ∀ tool ∈ hiddenInRestore k.pipefail engine scope, Done applied tool s.calls := by
  cases h : packs engine with
  | true => exact piped_sound happlied h hrun hok
  | false =>
    refine iff_of_true (chained_sound happlied h hrun hok) ?_
    have hhidden : hiddenInRestore k.pipefail engine scope = [] := by
      cases engine <;> cases scope <;> first | rfl | cases h
    simp [hhidden]

/-! ## Successes -/

theorem backup_ran {backupAllDatabases : Bool} {upload : Option Bool}
    (h : backup k engine backupAllDatabases upload = .success) :
    ∃ s, runRecipe k (backupScript (dumpOf engine (scopeOf engine backupAllDatabases))) = some s ∧
      s.status = 0 := by
  unfold backup at h
  split at h
  · cases h
  · rename_i s hrun
    refine ⟨s, hrun, ?_⟩
    by_contra hne
    rw [if_pos hne] at h
    cases h

/-- A restore that ends without an error has run the restore of the scope. -/
theorem restore_ran {stopped started : Bool} (h : restore k engine scope stopped started = true) :
    ∃ s, runRecipe k (restoreScript engine scope) = some s ∧ s.status = 0 := by
  have hscript : (BACKUP_RECIPES engine).restoreMode = .offlineVolume →
      (BACKUP_RECIPES engine).restore = restoreScript engine scope := by
    intro hmode
    cases engine <;> cases scope <;> first | rfl | cases hmode
  unfold restore at h
  split at h
  · split at h
    · cases h
    · rename_i s hrun
      exact ⟨s, hrun, of_decide_eq_true h⟩
  · rename_i hmode
    rw [hscript hmode, Bool.and_eq_true] at h
    split at h
    · cases h.2
    · rename_i s hrun
      exact ⟨s, hrun, of_decide_eq_true h.2⟩

/-- **A success and its tools**: a backup that is recorded as a success, and a restore that ends
without an error, are what they say exactly if the tools that their command lines do not look at
have succeeded too. -/
theorem recipes_sound {applied : ToolCall → Prop} (happlied : StopsAtError applied) (k : Container)
    (engine : DatabaseEngine) :
    (∀ backupAllDatabases upload, backup k engine backupAllDatabases upload = .success →
      ∃ s, runRecipe k (backupScript (dumpOf engine (scopeOf engine backupAllDatabases))) = some s ∧
        (BackupSound engine (scopeOf engine backupAllDatabases) k s.calls ↔
          ∀ tool ∈ hiddenInBackup k.pipefail engine (scopeOf engine backupAllDatabases),
            Succeeded tool s.calls)) ∧
      ∀ scope stopped started, restore k engine scope stopped started = true →
        ∃ s, runRecipe k (restoreScript engine scope) = some s ∧
          (RestoreSound applied engine s.calls ↔
            ∀ tool ∈ hiddenInRestore k.pipefail engine scope, Done applied tool s.calls) := by
  constructor
  · intro backupAllDatabases upload h
    obtain ⟨s, hrun, hok⟩ := backup_ran h
    exact ⟨s, hrun, backup_sound hrun hok⟩
  · intro scope stopped started h
    obtain ⟨s, hrun, hok⟩ := restore_ran h
    exact ⟨s, hrun, restore_sound happlied hrun hok⟩

def toolsFailing (codes : JsString → Nat) : Tools where
  exec argv _ w := (codes (argv.head?.getD []), [], w)
  canOpen _ _ := true
  glob _ _ := []

def containerFailing (pipefail : Bool) (codes : JsString → Nat) : Container where
  tools := toolsFailing codes
  pipefail := pipefail
  env _ := []
  files _ := none
  docker := true

/-- A backup of one database of MySQL, whose tools succeed. -/
theorem recipes_sound_mysql :
    ∃ s, runRecipe (containerFailing false fun _ => 0) (backupScript (dumpOf .mysql .database)) = some s ∧
      BackupSound .mysql .database (containerFailing false fun _ => 0) s.calls := by
  obtain ⟨s, hrun, hsound⟩ := (recipes_sound (fun _ _ _ => trivial : StopsAtError fun _ => True)
    (containerFailing false fun _ => 0) .mysql).1 false none (by decide +kernel)
  exact ⟨s, hrun, hsound.mpr (by simp [hiddenInBackup, lists, scopeOf])⟩

def codesOf (tool : JsString) (calls : List ToolCall) : List Nat :=
  (calls.filter fun call => call.argv.head? = some tool).map Shell.Call.code

theorem not_done {tool : JsString} (h : 0 ∉ codesOf tool calls) : ¬ Done applied tool calls := by
  rintro ⟨call, hmem, hhead, hcode, -⟩
  refine h (mem_map.mpr ⟨call, mem_filter.mpr ⟨hmem, ?_⟩, hcode⟩)
  exact decide_eq_true hhead

/-- **Restored in part**: without `pipefail` nobody sees that `gunzip` has failed, and when all
databases of PostgreSQL are restored nobody sees that `psql` has, in any shell. -/
theorem restored_in_part :
    (∃ k s, k.pipefail = false ∧ restore k .mysql .database true true = true ∧
      runRecipe k (restoreScript .mysql .database) = some s ∧
      ∀ applied, ¬ RestoreSound applied .mysql s.calls) ∧
    ∃ k s, k.pipefail = true ∧ restore k .postgres .all true true = true ∧
      runRecipe k (restoreScript .postgres .all) = some s ∧
      ∀ applied, ¬ RestoreSound applied .postgres s.calls := by
  refine ⟨⟨containerFailing false fun tool => if tool = js "gunzip" then 1 else 0, _, rfl, ?_, rfl, ?_⟩,
    containerFailing true fun tool => if tool = js "psql" then 3 else 0, _, rfl, ?_, rfl, ?_⟩
  · decide +kernel
  · exact fun applied hsound => not_done (by decide +kernel) (hsound.1 (js "gunzip") (by decide +kernel))
  · decide +kernel
  · exact fun applied hsound => not_done (by decide +kernel) (hsound.1 (js "psql") (by decide +kernel))

end Aoox.DatabaseRecipes
