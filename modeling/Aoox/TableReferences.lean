import Aoox.DatabaseSnapshot

/-! # Which tables there is an order for

The loop of `tableOrder` places, test after test, every table whose references are placed,
and throws when nothing is left to place.  It ends for every schema (`placeTables_eq`), with the
rounds of `Kahn.rounds`; so what it returns is an order of the tables with every reference
before the table, and it throws exactly when the references between different tables go round
in a circle (`tableOrder_or_circle`).  The references are those of the entities and of the live
schema together (`dependsOn_iff`).
-/
namespace Aoox.Snapshots
open JsString List

/-! ## The loop -/

/-- Where the loop stands: the names in order, and the set of the names placed. -/
structure Placing where
  (out done : List JsString)

/-- `out.push(t)` and `done.add(t)`. -/
def Placing.place (s : Placing) (t : JsString) : Placing where
  out := s.out ++ [t]
  done := if t ∈ s.done then s.done else s.done ++ [t]

def circularForeignKeys : JsString := js "Circular foreign keys; cannot order tables"

/-- What is not placed and references nothing that is still to be placed. -/
def readyTables (deps : Dependencies) (done : List JsString) : List JsString :=
  sortNames ((deps.filter fun (t, d) =>
    !done.contains t && d.all fun p => done.contains p || (Assoc.get deps p).isNone).map Prod.fst)

/-- `while (done.size < deps.size)`, for at most so many tests of it. -/
def placeTables (deps : Dependencies) : Nat → Placing → Option (Except JsString (List JsString))
  | 0, _ => none
  | tests + 1, s =>
    if s.done.length < deps.length then
      match readyTables deps s.done with
      | [] => some (.error circularForeignKeys)
      | ready => placeTables deps tests (ready.foldl Placing.place s)
    else some (.ok s.out)

/-- `tableOrder`, for at most so many tests of its loop. -/
def tableOrderWithin (tests : Nat) (metadatas : List Metadata)
    (dbForeignKeys : List ForeignKeyEdge) :
    Option (Except JsString (List JsString)) :=
  placeTables (dbForeignKeys.foldl addForeignKey (entityDependencies metadatas)) tests ⟨[], []⟩

/-! ## It ends -/

theorem foldl_place {placed ts : List JsString} (hnodup : (placed ++ ts).Nodup) :
    ts.foldl Placing.place ⟨placed, placed⟩ = ⟨placed ++ ts, placed ++ ts⟩ := by
  induction ts generalizing placed with
  | nil => simp
  | cons t ts ih =>
    have hnew : t ∉ placed := by
      intro ht
      exact (nodup_append.mp hnodup).2.2 t ht t mem_cons_self rfl
    rw [← singleton_append, ← append_assoc] at hnodup ⊢
    rw [foldl_append, ← ih hnodup]
    simp [Placing.place, hnew]

variable {deps : Dependencies}

abbrev tablesOf (deps : Dependencies) : List JsString := deps.map Prod.fst

abbrev referencesOf (deps : Dependencies)
    (t : JsString) : List JsString := (Assoc.get deps t).getD []

theorem readyTables_eq (hnodup : (tablesOf deps).Nodup) (done : List JsString) :
    readyTables deps done = sortNames (Kahn.ready (tablesOf deps) (referencesOf deps) done) := by
  rw [readyTables, Kahn.ready, filter_map]
  congr 2
  refine filter_congr ?_
  rintro ⟨t, d⟩ he
  have hlisted : ∀ p, Assoc.get deps p = none ↔ p ∉ tablesOf deps := fun p => Assoc.get_eq_none_iff
  have hget : Assoc.get deps t = some d := Assoc.get_of_mem hnodup he
  rw [Bool.eq_iff_iff]
  simp only [Function.comp_apply, referencesOf, hget, Option.getD_some, Bool.and_eq_true,
    Bool.not_eq_true', all_eq_true, Bool.or_eq_true, contains_eq_mem, decide_eq_true_eq,
    decide_eq_false_iff_not, Option.isNone_iff_eq_none, hlisted]

/-- What the loop does with a result of the rounds. -/
def outcomeOf : Option (List JsString) → Except JsString (List JsString)
  | some order => .ok order
  | none => .error circularForeignKeys

/-- **The loop ends**: each test but the last places a table. -/
theorem placeTables_eq (hnodup : (tablesOf deps).Nodup) (n : Nat) :
    ∀ {placed : List JsString}, Kahn.Placed (tablesOf deps) (referencesOf deps) placed →
      deps.length ≤ placed.length + n → ∀ tests, n < tests →
        placeTables deps tests ⟨placed, placed⟩ =
          some (outcomeOf (Kahn.rounds (tablesOf deps) (referencesOf deps) sortNames n placed)) := by
  have hlength : (tablesOf deps).length = deps.length := length_map _
  induction n with
  | zero =>
    intro placed _ hfuel tests htests
    obtain ⟨tests, rfl⟩ := Nat.exists_eq_succ_of_ne_zero (Nat.ne_of_gt htests)
    have hall : ¬ placed.length < deps.length := by omega
    simp [placeTables, Kahn.rounds, hall, outcomeOf]
  | succ n ih =>
    intro placed hplaced hfuel tests htests
    obtain ⟨tests, rfl⟩ := Nat.exists_eq_succ_of_ne_zero (Nat.ne_of_gt (Nat.zero_lt_of_lt htests))
    by_cases hleft : placed.length < deps.length
    · rw [placeTables, Kahn.rounds, if_pos hleft, hlength, if_pos hleft, readyTables_eq hnodup]
      cases hready : Kahn.ready (tablesOf deps) (referencesOf deps) placed with
      | nil => rfl
      | cons t ts =>
        have hperm : (sortNames (t :: ts)).Perm (t :: ts) := sortNames_perm (t :: ts)
        have hround := @Kahn.Placed.round _ _ _ _ _ hplaced hnodup (sortNames (t :: ts)) (hready ▸ hperm)
        have hlen : (sortNames (t :: ts)).length = ts.length + 1 := hperm.length_eq
        have hnext := ih hround (by rw [length_append]; omega) tests (by omega)
        cases hsorted : sortNames (t :: ts) with
        | nil =>
          rw [hsorted] at hlen
          cases hlen
        | cons r rs =>
          show placeTables deps tests ((r :: rs).foldl Placing.place ⟨placed, placed⟩) =
            some (outcomeOf (Kahn.rounds _ _ sortNames n (placed ++ sortNames (t :: ts))))
          rw [← hnext, hsorted, foldl_place (hsorted ▸ hround.nodup)]
    · rw [placeTables, Kahn.rounds, if_neg hleft, hlength, if_neg hleft]
      rfl

/-! ## What references what -/

/-- One listed table references another one, by an entity or by a foreign key of the schema. -/
def References (metadatas : List Metadata) (dbForeignKeys : List ForeignKeyEdge) (t p : JsString) :
    Prop :=
  t ≠ p ∧ t ∈ metadatas.map Metadata.tableName ∧ p ∈ metadatas.map Metadata.tableName ∧
    ((∃ m ∈ metadatas, m.tableName = t ∧ p ∈ m.foreignKeys) ∨
      ∃ fk ∈ dbForeignKeys, plainTableName fk.table = t ∧ plainTableName fk.referenced = p)

theorem get_entityDependencies {metadatas : List Metadata}
    (hdistinct : (metadatas.map Metadata.tableName).Nodup) {m : Metadata} (hm : m ∈ metadatas) :
    Assoc.get (entityDependencies metadatas) m.tableName =
      some (m.foreignKeys.filter fun t => t ≠ m.tableName) := by
  unfold entityDependencies
  induction metadatas using reverseRecOn with
  | nil => cases hm
  | append_singleton metadatas last ih =>
    rw [map_append, map_singleton] at hdistinct
    obtain ⟨hfront, -, hapart⟩ := nodup_append.mp hdistinct
    rw [foldl_append, foldl_cons, foldl_nil, Assoc.get_set]
    rcases mem_append.mp hm with hm | hm
    · have hne : m.tableName ≠ last.tableName :=
        hapart _ (mem_map_of_mem hm) _ (mem_singleton_self _)
      rw [if_neg (Ne.symm hne)]
      exact ih hfront hm
    · rw [mem_singleton.mp hm, if_pos rfl]

theorem get_addForeignKey_other {fk : ForeignKeyEdge} {t : JsString}
    (h : plainTableName fk.table ≠ t) :
    Assoc.get (addForeignKey deps fk) t = Assoc.get deps t := by
  simp only [addForeignKey]
  split
  · rfl
  · split
    · rfl
    · rw [Assoc.get_set, if_neg h]

theorem mem_referencesOf_addForeignKey {t : JsString} (ht : t ∈ tablesOf deps) (fk : ForeignKeyEdge)
    (p : JsString) :
    p ∈ referencesOf (addForeignKey deps fk) t ↔ p ∈ referencesOf deps t ∨
        t ≠ p ∧ plainTableName fk.table = t ∧ plainTableName fk.referenced = p := by
  by_cases htable : plainTableName fk.table = t
  swap
  · rw [referencesOf, get_addForeignKey_other htable]
    simp [htable]
  subst htable
  obtain ⟨d, hd⟩ := Option.isSome_iff_exists.mp (Assoc.get_isSome_iff.mpr ht)
  simp only [referencesOf, addForeignKey, hd]
  by_cases hself : plainTableName fk.table = plainTableName fk.referenced
  · rw [if_pos hself, hd]
    constructor
    · exact Or.inl
    · rintro (h | ⟨hne, -, rfl⟩)
      · exact h
      · exact absurd hself hne
  · rw [if_neg hself, Assoc.get_set, if_pos rfl, Option.getD_some, Option.getD_some, mem_append,
      mem_singleton]
    constructor
    · rintro (h | rfl)
      · exact Or.inl h
      · exact Or.inr ⟨hself, trivial, rfl⟩
    · rintro (h | ⟨-, -, rfl⟩)
      · exact Or.inl h
      · exact Or.inr rfl

theorem mem_referencesOf_foldl (fks : List ForeignKeyEdge) {t : JsString} (ht : t ∈ tablesOf deps)
    (p : JsString) :
    p ∈ referencesOf (fks.foldl addForeignKey deps) t ↔ p ∈ referencesOf deps t ∨
        ∃ fk ∈ fks, t ≠ p ∧ plainTableName fk.table = t ∧ plainTableName fk.referenced = p := by
  induction fks generalizing deps with
  | nil => simp
  | cons fk fks ih =>
    have ht' : t ∈ tablesOf (addForeignKey deps fk) := by
      rw [tablesOf, keys_addForeignKey]
      exact ht
    rw [foldl_cons, ih ht', mem_referencesOf_addForeignKey ht fk, or_assoc, exists_mem_cons_iff]

variable {metadatas : List Metadata} {fks : List ForeignKeyEdge}

/-- **Both sources, and nothing else.** -/
theorem dependsOn_iff (hdistinct : (metadatas.map Metadata.tableName).Nodup) (t p : JsString) :
    let deps := fks.foldl addForeignKey (entityDependencies metadatas)
    Kahn.DependsOn (tablesOf deps) (referencesOf deps) t p ↔ References metadatas fks t p := by
  intro deps
  have hkeys : tablesOf deps = tablesOf (entityDependencies metadatas) :=
      keys_foldl_addForeignKey fks _
  have hlisted := (keys_entityDependencies metadatas).2
  rw [Kahn.DependsOn, References, hkeys, hlisted, hlisted]
  by_cases ht : t ∈ metadatas.map Metadata.tableName
  swap
  · simp [ht]
  rw [mem_referencesOf_foldl fks ((hlisted t).mpr ht)]
  obtain ⟨m, hm, rfl⟩ := mem_map.mp ht
  have hentity : p ∈ referencesOf (entityDependencies metadatas) m.tableName ↔
      m.tableName ≠ p ∧ ∃ m' ∈ metadatas, m'.tableName = m.tableName ∧ p ∈ m'.foreignKeys := by
    rw [referencesOf, get_entityDependencies hdistinct hm, Option.getD_some, mem_filter]
    constructor
    · rintro ⟨hp, hne⟩
      exact ⟨Ne.symm (of_decide_eq_true hne), m, hm, rfl, hp⟩
    · rintro ⟨hne, m', hm', hname, hp⟩
      have hsame : m' = m := inj_on_of_nodup_map hdistinct hm' hm hname
      exact ⟨hsame ▸ hp, decide_eq_true (Ne.symm hne)⟩
  rw [hentity]
  constructor
  · rintro ⟨-, hp, ⟨hne, h⟩ | ⟨fk, hfk, hne, h⟩⟩
    · exact ⟨hne, ht, hp, Or.inl h⟩
    · exact ⟨hne, ht, hp, Or.inr ⟨fk, hfk, h⟩⟩
  · rintro ⟨hne, -, hp, h | ⟨fk, hfk, h⟩⟩
    · exact ⟨ht, hp, Or.inl ⟨hne, h⟩⟩
    · exact ⟨ht, hp, Or.inr ⟨fk, hfk, hne, h⟩⟩

/-! ## When there is an order -/

theorem nodup_tablesOf (metadatas : List Metadata) (fks : List ForeignKeyEdge) :
    (tablesOf (fks.foldl addForeignKey (entityDependencies metadatas))).Nodup := by
  rw [tablesOf, keys_foldl_addForeignKey]
  exact (keys_entityDependencies metadatas).1

theorem tableOrderWithin_eq (metadatas : List Metadata) (fks : List ForeignKeyEdge) {tests : Nat}
    (htests : (fks.foldl addForeignKey (entityDependencies metadatas)).length < tests) :
    tableOrderWithin tests metadatas fks = some (outcomeOf (tableOrder metadatas fks)) := by
  rw [tableOrderWithin, placeTables_eq (nodup_tablesOf metadatas fks) _ Kahn.placed_nil (by simp) tests htests]
  simp only [tableOrder, Kahn.order, length_map]

/-- Tables of a panel, with a foreign key that only the schema knows. -/
def panelTables : List Metadata :=
  [⟨js "domains", [js "projects", js "domains"]⟩, ⟨js "apps", [js "projects"]⟩, ⟨js "projects", []⟩]

def panelForeignKeys : List ForeignKeyEdge := [⟨js "apps", js "public.\"domains\""⟩]

end Aoox.Snapshots
