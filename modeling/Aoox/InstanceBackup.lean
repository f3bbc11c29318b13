import Aoox.DatabaseSnapshot
import Aoox.Runs

/-! # Backing up the instance

A backup reads every table of the panel's database, parents first, with one query each, and
a restore empties the tables and inserts the rows again, parents first, in one transaction.
Every query of the dump is a transaction of its own, and other requests commit between any
two of them.  A child read after its parent may then belong to a parent that was not there
yet when the parents were read: the backup is recorded as successful and cannot be restored.

`step` is one dump among commits.  A state of the database is consistent when every foreign
key finds its row, and a restore of a consistent state succeeds and gives that state
(`apply_snapshot`).  A backup holds one committed state if, once a commit has changed a
table that was read, no commit changes a table that is still to be read
(`backup_restorable`).
-/
namespace Aoox.Snapshots
open JsString List Function

/-! ## The database -/

/-- A foreign key: a column that holds the key of a row of another table, or nothing. -/
structure ForeignKey (R K : Type) where
  edge : ForeignKeyEdge
  column : R → Option K

def ForeignKey.table {R K : Type} (fk : ForeignKey R K) : JsString := plainTableName fk.edge.table

def ForeignKey.referenced {R K : Type} (fk : ForeignKey R K) : JsString :=
  plainTableName fk.edge.referenced

/-- The schema.  Foreign keys are between tables of entities, no table references itself,
and the table of the migrations is no entity's. -/
structure Schema (R K : Type) where
  metadatas : List Metadata
  key : R → K
  foreignKeys : List (ForeignKey R K)
  within : ∀ fk ∈ foreignKeys, fk.table ∈ metadatas.map Metadata.tableName ∧
    fk.referenced ∈ metadatas.map Metadata.tableName ∧ fk.table ≠ fk.referenced
  migrations : js "migrations" ∉ metadatas.map Metadata.tableName

/-- The rows of each table. -/
abbrev Database (R : Type) := JsString → List R

section Restore
variable {R K : Type} [DecidableEq K] (S : Schema R K)

/-- The rows of a table that may stand in it: each foreign key finds its row. -/
def refers (db : Database R) (t : JsString) (rows : List R) : Bool :=
  (S.foreignKeys.filter fun fk => fk.table = t).all fun fk => rows.all fun r =>
    match fk.column r with
    | none => true
    | some k => (db fk.referenced).any fun p => S.key p = k

def Schema.consistent (db : Database R) : Bool :=
  (S.metadatas.map Metadata.tableName).all fun t =>
    ((db t).map S.key).Nodup && refers S db t (db t)

def Schema.orderedTables : Option (List JsString) :=
  tableOrder S.metadatas (S.foreignKeys.map ForeignKey.edge)

/-! ## Restoring -/

def batch : Nat := 500

/-- One `INSERT`: the primary keys are new and the foreign keys find their rows. -/
def insert (t : JsString) (rows : List R) (db : Database R) : Option (Database R) :=
  let after := db t ++ rows
  let db' := Function.update db t after
  if (after.map S.key).Nodup ∧ refers S db' t rows then some db' else none

/-- `ON CONFLICT (id) DO NOTHING`. -/
def insertNew (t : JsString) (rows : List R) (db : Database R) : Option (Database R) :=
  insert S t (rows.filter fun r => !((db t).map S.key).contains (S.key r)) db

/-- The rows of a table in batches. -/
def insertAll (t : JsString) : Nat → List R → Database R → Option (Database R)
  | 0, _, db => some db
  | n + 1, rows, db =>
    if rows.isEmpty then some db
    else (insert S t (rows.take batch) db).bind fun db' => insertAll t n (rows.drop batch) db'

/-- A snapshot: the applied migrations and the tables in the order they were read. -/
structure Snapshot (R : Type) where
  migrations : List JsString
  tables : List (JsString × List R)

def notRestored : List JsString := [js "migrations"]

def instanceBackups : JsString := js "instance_backups"

/-- `apply`, on a database with some applied migrations; `none` when it is refused. -/
def apply (migrations : List JsString) (snapshot : Snapshot R) (db : Database R) :
    Option (Database R) := do
  let order ← S.orderedTables
  if join (sortNames migrations) (js "\n") ≠ join (sortNames snapshot.migrations) (js "\n") then none
  let byName := Assoc.ofList snapshot.tables
  let restorable := order.filter fun t => !notRestored.contains t
  -- a table the schema does not know
  if (byName.map Prod.fst).any fun t => !order.contains t then none
  let ownBackups := db instanceBackups
  let emptied : Database R := fun t => if restorable.contains t then [] else db t
  let restored ← restorable.foldlM
    (fun db t =>
      let rows := (Assoc.get byName t).getD []
      insertAll S t rows.length rows db)
    emptied
  -- the backups made here stay listed
  if ownBackups.isEmpty then some restored else insertNew S instanceBackups ownBackups restored

/-! ## A restore of a consistent state -/

variable {S} {db : Database R} {t : JsString} {rows : List R}

theorem refers_congr {db' : Database R} (h : ∀ fk ∈ S.foreignKeys, fk.table = t →
    db' fk.referenced = db fk.referenced) : refers S db' t rows = refers S db t rows := by
  unfold refers
  rw [Bool.eq_iff_iff, all_eq_true, all_eq_true]
  refine forall_congr' fun fk => forall_congr' fun hfk => ?_
  obtain ⟨hmem, htable⟩ := mem_filter.mp hfk
  rw [h fk hmem (by simpa using htable)]

/-- Whether rows may stand in a table does not depend on that table. -/
theorem refers_update (after : List R) :
    refers S (update db t after) t rows = refers S db t rows := by
  refine refers_congr fun fk hfk htable => update_of_ne ?_ _ _
  exact fun he => (S.within fk hfk).2.2 (htable.trans he.symm)

theorem refers_subset {rows' : List R} (hsub : ∀ r ∈ rows', r ∈ rows) (h : refers S db t rows = true) :
    refers S db t rows' = true := by
  unfold refers at h ⊢
  rw [all_eq_true] at h ⊢
  intro fk hfk
  have hall := h fk hfk
  rw [all_eq_true] at hall ⊢
  intro r hr
  exact hall r (hsub r hr)

/-- **The batches of one table.** -/
theorem insertAll_eq (n : Nat) : ∀ (rows : List R) (db : Database R), rows.length ≤ n →
    ((db t ++ rows).map S.key).Nodup → refers S db t rows = true →
      insertAll S t n rows db = some (update db t (db t ++ rows)) := by
  -- on the batches left; each goes into what the earlier ones have left
  induction n with
  | zero =>
    intro rows db hlen _ _
    obtain rfl := eq_nil_of_length_eq_zero (Nat.le_zero.mp hlen)
    rw [append_nil, update_eq_self]
    rfl
  | succ n ih =>
    intro rows db hlen hkeys hrefers
    cases rows with
    | nil =>
      rw [append_nil, update_eq_self]
      rfl
    | cons r rest =>
      have htake : insert S t ((r :: rest).take batch) db =
          some (update db t (db t ++ (r :: rest).take batch)) := by
        unfold insert
        refine if_pos ⟨?_, ?_⟩
        · exact hkeys.sublist (((take_sublist _ _).append_left _).map _)
        · rw [refers_update]
          exact refers_subset (fun x hx => mem_of_mem_take hx) hrefers
      have hrest := ih ((r :: rest).drop batch) (update db t (db t ++ (r :: rest).take batch)) (by
          rw [length_drop, batch, length_cons]
          rw [length_cons] at hlen
          omega) (by
          rw [update_self, append_assoc, take_append_drop]
          exact hkeys) (by
          rw [refers_update]
          exact refers_subset (fun x hx => mem_of_mem_drop hx) hrefers)
      rw [update_self, append_assoc, take_append_drop, update_idem] at hrest
      simp only [insertAll, isEmpty_cons, Bool.false_eq_true, if_false]
      rw [htake]
      exact hrest

theorem consistent_refers (h : S.consistent db = true) (ht : t ∈ S.metadatas.map Metadata.tableName) :
    ((db t).map S.key).Nodup ∧ refers S db t (db t) = true := by
  have hall := all_eq_true.mp h t ht
  simpa using hall

/-- The database after the first tables have been restored. -/
def restoredUpTo (state : Database R) (pre : List JsString) : Database R :=
  fun t => if pre.contains t then state t else []

variable {state : Database R} {order : List JsString}

/-- **Table after table.** -/
theorem foldlM_restore {rowsOf : Database R} (hstate : S.consistent state = true)
    (horder : S.orderedTables = some order)
    (hrows : ∀ t ∈ order, rowsOf t = state t) : ∀ post pre, order = pre ++ post →
      post.foldlM (fun db t => insertAll S t (rowsOf t).length (rowsOf t) db) (restoredUpTo state pre) =
        some (restoredUpTo state order) := by
  intro post
  -- on the tables left: those before are restored, those to come are empty
  induction post with
  | nil =>
    intro pre hsplit
    rw [hsplit, append_nil]
    rfl
  | cons t post ih =>
    intro pre hsplit
    obtain ⟨hnodup, hmem⟩ := tableOrder_perm horder
    have hin : t ∈ order := by
      rw [hsplit]
      exact mem_append_right _ mem_cons_self
    have ht : t ∈ S.metadatas.map Metadata.tableName := (hmem t).mp hin
    obtain ⟨hkeys, hrefers⟩ := consistent_refers hstate ht
    have hnew : t ∉ pre := by
      intro hpre
      rw [hsplit] at hnodup
      exact (nodup_append.mp hnodup).2.2 t hpre t mem_cons_self rfl
    have hempty : restoredUpTo state pre t = [] := by simp [restoredUpTo, hnew]
    -- what the rows reference was restored before
    have hparents : refers S (restoredUpTo state pre) t (state t) = true := by
      rw [← hrefers]
      refine refers_congr fun fk hfk htable => ?_
      have hbefore : fk.referenced ∈ pre := by
        obtain ⟨-, hreferenced, hself⟩ := S.within fk hfk
        exact tableOrder_before horder (mem_map_of_mem hfk) hself hreferenced
          (by rw [hsplit, ← htable]; rfl)
      simp [restoredUpTo, hbefore]
    have hinsert := insertAll_eq (t := t) (state t).length (state t) (restoredUpTo state pre) le_rfl
      (by rw [hempty]; exact hkeys) hparents
    have hnext : update (restoredUpTo state pre) t (restoredUpTo state pre t ++ state t) =
        restoredUpTo state (pre ++ [t]) := by
      funext u
      by_cases hu : u = t
      · subst hu
        simp [restoredUpTo, hnew]
      · simp [restoredUpTo, hu]
    rw [foldlM_cons, hrows t hin, hinsert, hnext]
    exact ih (pre ++ [t]) (by rw [hsplit, append_assoc]; rfl)

/-- What a snapshot of one state holds of a table. -/
theorem get_ofList_map (hnodup : order.Nodup)
    (ht : t ∈ order) : Assoc.get (Assoc.ofList (order.map fun t => (t, state t))) t = some (state t) := by
  rw [Assoc.get_ofList]
  have hkeys : ((order.map fun t => (t, state t)).reverse.map Prod.fst).Nodup := by
    rw [map_reverse, map_map, nodup_reverse]
    exact (map_id order).symm ▸ hnodup
  have hmem : (t, state t) ∈ (order.map fun t => (t, state t)).reverse :=
    mem_reverse.mpr (mem_map.mpr ⟨t, ht, rfl⟩)
  exact Assoc.get_of_mem hkeys hmem

/-- **A snapshot of a consistent state can be restored into an empty schema, and gives that
state.** -/
theorem apply_snapshot (hstate : S.consistent state = true) (horder : S.orderedTables = some order)
    (migrations : List JsString) :
    apply S migrations ⟨migrations, order.map fun t => (t, state t)⟩ (fun _ => []) =
      some (restoredUpTo state order) := by
  obtain ⟨hnodup, hmem⟩ := tableOrder_perm horder
  have hrestorable : order.filter (fun t => !notRestored.contains t) = order := by
    rw [filter_eq_self]
    intro t ht
    have hne : t ≠ js "migrations" := by
      rintro rfl
      exact S.migrations ((hmem _).mp ht)
    simp [notRestored, hne]
  have hunknown : ((Assoc.ofList (order.map fun t => (t, state t))).map Prod.fst).any
      (fun t => !order.contains t) = false := by
    rw [any_eq_false]
    intro t ht
    rw [← Assoc.get_isSome_iff, Assoc.get_ofList, Assoc.get_isSome_iff] at ht
    have hin : t ∈ order := by simpa using ht
    simp [hin]
  have hrows : ∀ t ∈ order,
      (Assoc.get (Assoc.ofList (order.map fun t => (t, state t))) t).getD [] = state t := by
    intro t ht
    rw [get_ofList_map hnodup ht]
    rfl
  have hrestore := foldlM_restore hstate horder hrows order [] rfl
  have hemptied : (fun t => if order.contains t then [] else ([] : List R)) = restoredUpTo state [] := by
    funext t
    simp [restoredUpTo]
  unfold apply
  rw [horder]
  simp only [Option.bind_eq_bind, Option.bind_some, hrestorable, hunknown, hemptied]
  simp only [ne_eq, not_true_eq_false, if_false, Bool.false_eq_true]
  rw [hrestore]
  rfl

end Restore

/-! ## Backing up while others write -/

inductive Status where
  | success
  | failed

/-- How far a backup is. -/
inductive Progress (R : Type) where
  | idle
  | dumping (migrations : List JsString) (tables : List (JsString × List R)) (remaining : List JsString)
  | saved (status : Status) (snapshot : Option (Snapshot R))

/-- The database, the states that were committed so far, and a backup. -/
structure State (R : Type) where
  db : Database R
  committed : List (Database R)
  migrations : List JsString
  backup : Progress R

def initial {R : Type} (migrations : List JsString) (db : Database R) : State R :=
  ⟨db, [db], migrations, .idle⟩

inductive Action (R : Type) where
  /-- Another request commits. -/
  | commit (db : Database R)
  /-- The order of the tables and the migrations are read. -/
  | begin
  /-- The next table is read. -/
  | read
  /-- The file is written and copied to the destination. -/
  | write
  /-- Anything of the backup throws. -/
  | fail

section Backup
variable {R K : Type} [DecidableEq K] (S : Schema R K)

/-- One step of the backup or of another request. -/
def step (s : State R) : Action R → Option (State R)
  | .commit db =>
    if S.consistent db then some { s with db := db, committed := db :: s.committed } else none
  | .begin =>
    match s.backup with
    | .idle =>
      match S.orderedTables with
      | none => some { s with backup := .saved .failed none }
      | some order => some { s with backup := .dumping s.migrations [] order }
    | _ => none
  | .read =>
    match s.backup with
    | .dumping migrations tables (t :: remaining) =>
      some { s with backup := .dumping migrations (tables ++ [(t, s.db t)]) remaining }
    | _ => none
  | .write =>
    match s.backup with
    | .dumping migrations tables [] =>
      some { s with backup := .saved .success (some ⟨migrations, tables⟩) }
    | _ => none
  | .fail =>
    match s.backup with
    | .dumping _ _ _ => some { s with backup := .saved .failed none }
    | _ => none

/-- A successful backup holds one committed state, and restoring it gives that state. -/
def Restorable (s : State R) : Prop :=
  ∀ snapshot, s.backup = .saved .success (some snapshot) →
    ∃ state ∈ s.committed, ∃ order, S.orderedTables = some order ∧
      snapshot.tables = order.map (fun t => (t, state t)) ∧
      ∃ restored, apply S s.migrations snapshot (fun _ => []) = some restored ∧
        ∀ t ∈ S.metadatas.map Metadata.tableName, restored t = state t

/-- A commit leaves the tables that were read as they were read, or the others as they are. -/
def Untorn (s : State R) : Action R → Prop
  | .commit db => ∀ migrations tables remaining,
      s.backup = .dumping migrations tables remaining →
        (∀ p ∈ tables, db p.1 = p.2) ∨ ∀ t ∈ remaining, db t = s.db t
  | .begin | .read | .write | .fail => True

/-- What the backup has of a state: all of it was read there or is there still. -/
def Progress.from (S : Schema R K) (migrations : List JsString) (db : Database R) (state : Database R) :
    Progress R → Prop
  | .idle => True
  | .dumping applied tables remaining =>
    applied = migrations ∧ (∀ t ∈ remaining, db t = state t) ∧
      S.orderedTables = some (tables.map Prod.fst ++ remaining) ∧
      tables = (tables.map Prod.fst).map fun t => (t, state t)
  | .saved _ none => True
  | .saved _ (some snapshot) =>
    snapshot.migrations = migrations ∧ ∃ order, S.orderedTables = some order ∧
      snapshot.tables = order.map fun t => (t, state t)

structure Whole (s : State R) : Prop where
  current : s.db ∈ s.committed
  consistent : ∀ db ∈ s.committed, S.consistent db = true
  read : ∃ state ∈ s.committed, s.backup.from S s.migrations s.db state

variable {S} {s s' : State R}

variable {db : Database R}

theorem whole_initial (h : S.consistent db = true) (migrations : List JsString) :
    Whole S (initial migrations db) where
  current := mem_singleton_self db
  consistent db' hdb' := by rw [mem_singleton.mp hdb']; exact h
  read := ⟨db, mem_singleton_self db, trivial⟩

/-- **A commit.** -/
theorem Whole.commit (h : Whole S s) (hdb : S.consistent db = true)
    (huntorn : Untorn s (.commit db)) :
    Whole S { s with db := db, committed := db :: s.committed } where
  current := mem_cons_self
  consistent db' hdb' := by
    rcases mem_cons.mp hdb' with rfl | hold
    · exact hdb
    · exact h.consistent db' hold
  read := by
    obtain ⟨state, hstate, hfrom⟩ := h.read
    rcases s with ⟨before, committed, migrations, backup⟩
    cases backup with
    | idle => exact ⟨db, mem_cons_self, trivial⟩
    | saved status snapshot =>
      refine ⟨state, mem_cons_of_mem _ hstate, ?_⟩
      cases snapshot with
      | none => trivial
      | some snapshot => exact hfrom
    | dumping applied tables remaining =>
      obtain ⟨rfl, hremaining, horder, htables⟩ := hfrom
      rcases huntorn applied tables remaining rfl with hread | hrest
      · -- the tables read so far are in the new state as well
        refine ⟨db, mem_cons_self, rfl, fun _ _ => rfl, horder, ?_⟩
        rw [map_map]
        refine (map_id tables).symm.trans (map_congr_left ?_)
        intro p hp
        exact Prod.ext rfl (hread p hp).symm
      · refine ⟨state, mem_cons_of_mem _ hstate, rfl, ?_, horder, htables⟩
        intro t ht
        exact (hrest t ht).trans (hremaining t ht)

/-- **One step keeps one state behind the backup.** -/
theorem Whole.step {a : Action R} (h : Whole S s) (ha : Untorn s a)
    (hstep : Snapshots.step S s a = some s') : Whole S s' := by
  obtain ⟨state, hstate, hfrom⟩ := h.read
  rcases s with ⟨db, committed, migrations, backup⟩
  cases a with
  | commit db' =>
    simp only [Snapshots.step] at hstep
    split at hstep
    · rename_i hdb'
      cases hstep
      exact h.commit hdb' ha
    · cases hstep
  | begin =>
    cases backup with
    | idle =>
      simp only [Snapshots.step] at hstep
      split at hstep
      · cases hstep
        exact ⟨h.current, h.consistent, db, h.current, trivial⟩
      · rename_i order horder
        cases hstep
        exact ⟨h.current, h.consistent, db, h.current, rfl, fun _ _ => rfl, horder, rfl⟩
    | dumping | saved => cases hstep
  | read =>
    cases backup with
    | dumping applied tables remaining =>
      cases remaining with
      | nil => cases hstep
      | cons t remaining =>
        cases hstep
        obtain ⟨rfl, hremaining, horder, htables⟩ := hfrom
        refine ⟨h.current, h.consistent, state, hstate, rfl, ?_, ?_, ?_⟩
        · exact fun u hu => hremaining u (mem_cons_of_mem t hu)
        · rw [horder, map_append, append_assoc]
          rfl
        · rw [map_append, map_append, ← htables, hremaining t mem_cons_self]
          rfl
    | idle | saved => cases hstep
  | write =>
    cases backup with
    | dumping applied tables remaining =>
      cases remaining with
      | nil =>
        cases hstep
        obtain ⟨rfl, -, horder, htables⟩ := hfrom
        rw [append_nil] at horder
        exact ⟨h.current, h.consistent, state, hstate, rfl, _, horder, htables⟩
      | cons t remaining => cases hstep
    | idle | saved => cases hstep
  | fail =>
    cases backup with
    | dumping applied tables remaining =>
      cases hstep
      exact ⟨h.current, h.consistent, db, h.current, trivial⟩
    | idle | saved => cases hstep

theorem Whole.restorable (h : Whole S s) : Restorable S s := by
  intro snapshot hsaved
  obtain ⟨state, hstate, hfrom⟩ := h.read
  rw [hsaved] at hfrom
  obtain ⟨hmigrations, order, horder, htables⟩ := hfrom
  have hsnapshot : snapshot = ⟨s.migrations, order.map fun t => (t, state t)⟩ := by
    rw [← hmigrations, ← htables]
  refine ⟨state, hstate, order, horder, htables, restoredUpTo state order, ?_, ?_⟩
  · rw [hsnapshot]
    exact apply_snapshot (h.consistent state hstate) horder s.migrations
  · intro t ht
    have hin : t ∈ order := ((tableOrder_perm horder).2 t).mpr ht
    simp [restoredUpTo, hin]

end Backup

/-- **A successful backup is one committed state**, in every state of a run in which each
commit leaves the tables read so far as they were read or the tables still to be read as
they are. -/
theorem backup_restorable {R K : Type} [DecidableEq K] (S : Schema R K) (migrations : List JsString)
    (db : Database R) (hdb : S.consistent db = true) (as : List (Action R)) (s : State R)
    (huntorn : Runs.Meets (step S) Untorn (initial migrations db) as)
    (hexec : Runs.exec (step S) (initial migrations db) as = some s) : Restorable S s :=
  (Runs.exec_invariant (fun _ _ _ h ha hstep => h.step ha hstep) as (initial migrations db) s
    (whole_initial hdb migrations) huntorn hexec).restorable

/-! ## A project and its application -/

/-- A row with its key and the project it belongs to. -/
structure Row where
  id : Nat
  projectId : Option Nat

/-- Applications belong to projects by a foreign key that only a migration knows. -/
def panelSchema : Schema Row Nat where
  metadatas := [⟨js "applications", []⟩, ⟨js "projects", []⟩]
  key := Row.id
  foreignKeys := [⟨⟨js "applications", js "projects"⟩, Row.projectId⟩]
  within := by decide
  migrations := by decide

def panelRows (projects applications : List Row) : Database Row := fun t =>
  if t = js "projects" then projects else if t = js "applications" then applications else []

/-- A commit before the first table is read is in the backup. -/
theorem backup_restorable_before :
    ∃ s, Runs.exec (step panelSchema) (initial [] (panelRows [] []))
        [.begin, .commit (panelRows [⟨1, none⟩] [⟨2, some 1⟩]), .read, .read, .write] = some s ∧
      Restorable panelSchema s := by
  refine ⟨_, rfl, ?_⟩
  refine backup_restorable panelSchema [] (panelRows [] []) (by decide)
    [.begin, .commit (panelRows [⟨1, none⟩] [⟨2, some 1⟩]), .read, .read, .write] _ ?_ rfl
  refine ⟨trivial, ?_⟩
  rintro s ⟨⟩
  refine ⟨?_, ?_⟩
  · rintro migrations tables remaining ⟨⟩
    exact Or.inl fun p hp => absurd hp List.not_mem_nil
  · rintro s ⟨⟩
    exact ⟨trivial, fun s _ => ⟨trivial, fun s _ => ⟨trivial, fun _ _ => trivial⟩⟩⟩

/-- A project and its application are created after the projects were read: the backup is
successful and its restore violates the foreign key. -/
theorem application_without_project :
    ¬ ∀ (as : List (Action Row)) (s : State Row),
      Runs.exec (step panelSchema) (initial [] (panelRows [] [])) as = some s →
        Restorable panelSchema s := by
  intro h
  obtain ⟨-, -, -, -, -, restored, hrestored, -⟩ := h
    [.begin, .read, .commit (panelRows [⟨1, none⟩] [⟨2, some 1⟩]), .read, .write] _ rfl _ rfl
  have hnone : (apply panelSchema [] ⟨[], [(js "projects", []), (js "applications", [⟨2, some 1⟩])]⟩
      fun _ => []).isNone = true := by decide
  have heq := (Option.isNone_iff_eq_none.mp hnone).symm.trans hrestored
  cases heq

end Aoox.Snapshots
