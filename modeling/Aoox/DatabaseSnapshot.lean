import Aoox.Assoc
import Aoox.JsString
import Aoox.KahnOrder

/-! # The order of the tables

A snapshot of the panel's database is written and read back table by table, so every table
comes after the ones it references.  What references what is put together from the entities
and from the foreign keys of the live schema, some of which only migrations know.
`tableOrder` orders the tables by rounds; `tableOrder_perm` and `tableOrder_before` are
what a dump and a restore need of it.
-/
namespace Aoox.Snapshots
open JsString List

/-- An entity: its table and the tables its relations reference. -/
structure Metadata where
  tableName : JsString
  foreignKeys : List JsString

/-- One foreign key of the live schema, with names as the catalogue prints them. -/
structure ForeignKeyEdge where
  (table referenced : JsString)

def plainTableName (name : JsString) : JsString :=
  let name := if startsWith name (js "public.") then name.drop 7 else name
  -- the dot of the pattern matches no line end
  let isLineEnd := fun c => c == 10 || c == 13 || c == 0x2028 || c == 0x2029
  if 2 ≤ name.length ∧ name.head? = some (cu '"') ∧ name.getLast? = some (cu '"') ∧
      !(name.any isLineEnd) then
    name.tail.dropLast
  else name

abbrev Dependencies := List (JsString × List JsString)

/-- What the entities say. -/
def entityDependencies (metadatas : List Metadata) : Dependencies :=
  metadatas.foldl
    (fun deps m => Assoc.set deps m.tableName (m.foreignKeys.filter fun t => t ≠ m.tableName)) []

/-- `deps.get(table)?.add(referenced)`, but for references of a table to itself. -/
def addForeignKey (deps : Dependencies) (fk : ForeignKeyEdge) : Dependencies :=
  let table := plainTableName fk.table
  let referenced := plainTableName fk.referenced
  if table = referenced then deps
  else
    match Assoc.get deps table with
    | none => deps
    | some d => Assoc.set deps table (d ++ [referenced])

/-- `sort()` of texts, by code units. -/
def sortNames (names : List JsString) : List JsString := names.insertionSort fun a b => ¬ b < a

/-- Table names, parents first; `none` when the foreign keys go round in a circle. -/
def tableOrder (metadatas : List Metadata) (dbForeignKeys : List ForeignKeyEdge) :
    Option (List JsString) :=
  let deps := dbForeignKeys.foldl addForeignKey (entityDependencies metadatas)
  Kahn.order (deps.map Prod.fst) (fun t => (Assoc.get deps t).getD []) sortNames

/-! ## What the order gives -/

theorem sortNames_perm (names : List JsString) : (sortNames names).Perm names :=
  perm_insertionSort _ _

theorem keys_addForeignKey (deps : Dependencies) (fk : ForeignKeyEdge) :
    (addForeignKey deps fk).map Prod.fst = deps.map Prod.fst := by
  simp only [addForeignKey]
  split
  · rfl
  · split
    · rfl
    · rename_i d hget
      rw [Assoc.keys_set]
      have hmem : plainTableName fk.table ∈ deps.map Prod.fst :=
        mem_map.mpr ⟨_, Assoc.mem_of_get hget, rfl⟩
      rw [if_pos hmem]

theorem keys_foldl_addForeignKey (fks : List ForeignKeyEdge) (deps : Dependencies) :
    (fks.foldl addForeignKey deps).map Prod.fst = deps.map Prod.fst := by
  induction fks generalizing deps with
  | nil => rfl
  | cons fk fks ih => rw [foldl_cons, ih, keys_addForeignKey]

theorem keys_entityDependencies (metadatas : List Metadata) :
    ((entityDependencies metadatas).map Prod.fst).Nodup ∧
      ∀ t, t ∈ (entityDependencies metadatas).map Prod.fst ↔ t ∈ metadatas.map Metadata.tableName := by
  unfold entityDependencies
  induction metadatas using reverseRecOn with
  | nil => simp
  | append_singleton metadatas m ih =>
    obtain ⟨hnodup, hmem⟩ := ih
    rw [foldl_append, foldl_cons, foldl_nil]
    refine ⟨Assoc.nodup_set hnodup _ _, ?_⟩
    intro t
    rw [Assoc.keys_set, map_append, mem_append, map_singleton, mem_singleton]
    split
    · rename_i hold
      rw [hmem t]
      constructor
      · exact Or.inl
      · rintro (h | rfl)
        · exact h
        · exact (hmem _).mp hold
    · rw [mem_append, mem_singleton, hmem t]

variable {deps : Dependencies} {t : JsString} {d : List JsString}

theorem get_addForeignKey (h : Assoc.get deps t = some d) (fk : ForeignKeyEdge) :
    ∃ d', Assoc.get (addForeignKey deps fk) t = some d' ∧ d ⊆ d' := by
  simp only [addForeignKey]
  split
  · exact ⟨d, h, List.Subset.refl d⟩
  · split
    · exact ⟨d, h, List.Subset.refl d⟩
    · rename_i d₀ hget
      rw [Assoc.get_set]
      split
      · rename_i htable
        rw [htable, h] at hget
        obtain rfl := Option.some.inj hget
        exact ⟨_, rfl, subset_append_left _ _⟩
      · exact ⟨d, h, List.Subset.refl d⟩

theorem get_foldl_addForeignKey (fks : List ForeignKeyEdge) (h : Assoc.get deps t = some d) :
    ∃ d', Assoc.get (fks.foldl addForeignKey deps) t = some d' ∧ d ⊆ d' := by
  induction fks generalizing deps d with
  | nil => exact ⟨d, h, List.Subset.refl d⟩
  | cons fk fks ih =>
    obtain ⟨d₁, h₁, hsub₁⟩ := get_addForeignKey h fk
    obtain ⟨d₂, h₂, hsub₂⟩ := ih h₁
    exact ⟨d₂, h₂, fun x hx => hsub₂ (hsub₁ hx)⟩

variable {fk : ForeignKeyEdge}

theorem mem_dependencies {fks : List ForeignKeyEdge} (hfk : fk ∈ fks)
    (htable : plainTableName fk.table ∈ deps.map Prod.fst)
    (hself : plainTableName fk.table ≠ plainTableName fk.referenced) :
    plainTableName fk.referenced ∈
      (Assoc.get (fks.foldl addForeignKey deps) (plainTableName fk.table)).getD [] := by
  obtain ⟨pre, post, rfl⟩ := append_of_mem hfk
  rw [foldl_append, foldl_cons]
  have hkeys := keys_foldl_addForeignKey pre deps
  obtain ⟨d, hget⟩ := Option.isSome_iff_exists.mp (Assoc.get_isSome_iff.mpr (hkeys ▸ htable))
  have hadded : Assoc.get (addForeignKey (pre.foldl addForeignKey deps) fk) (plainTableName fk.table) =
      some (d ++ [plainTableName fk.referenced]) := by
    simp only [addForeignKey, if_neg hself, hget, Assoc.get_set, if_pos]
  obtain ⟨d', hd', hsub⟩ := get_foldl_addForeignKey post hadded
  rw [hd']
  exact hsub (mem_append_right _ (mem_singleton_self _))

variable {metadatas : List Metadata} {fks : List ForeignKeyEdge} {order : List JsString}

/-- **The order has every table once.** -/
theorem tableOrder_perm (h : tableOrder metadatas fks = some order) :
    order.Nodup ∧ ∀ t, t ∈ order ↔ t ∈ metadatas.map Metadata.tableName := by
  obtain ⟨hnodup, hmem⟩ := keys_entityDependencies metadatas
  have hkeys := keys_foldl_addForeignKey fks (entityDependencies metadatas)
  have hperm := Kahn.order_perm (hkeys ▸ hnodup) sortNames_perm h
  rw [hkeys] at hperm
  exact ⟨hperm.nodup_iff.mpr hnodup, fun t => hperm.mem_iff.trans (hmem t)⟩

/-- **A table comes after the tables it references.** -/
theorem tableOrder_before (h : tableOrder metadatas fks = some order) (hfk : fk ∈ fks)
    (hself : plainTableName fk.table ≠ plainTableName fk.referenced)
    (hreferenced : plainTableName fk.referenced ∈ metadatas.map Metadata.tableName)
    {pre post : List JsString} (hsplit : order = pre ++ plainTableName fk.table :: post) :
    plainTableName fk.referenced ∈ pre := by
  obtain ⟨hnodup, hmem⟩ := keys_entityDependencies metadatas
  have hkeys := keys_foldl_addForeignKey fks (entityDependencies metadatas)
  have hsorted := Kahn.order_sorted (hkeys ▸ hnodup) sortNames_perm h
  have htable : plainTableName fk.table ∈ (entityDependencies metadatas).map Prod.fst := by
    refine (hmem _).mpr (((tableOrder_perm h).2 _).mp ?_)
    rw [hsplit]
    exact mem_append_right _ mem_cons_self
  refine hsorted pre (plainTableName fk.table) post hsplit _ (mem_dependencies hfk htable hself) ?_
  rw [hkeys]
  exact (hmem _).mpr hreferenced

/-- A child before its parent by name comes after it by order. -/
example : tableOrder [⟨js "domains", [js "projects"]⟩, ⟨js "apps", [js "projects"]⟩, ⟨js "projects", []⟩]
    [⟨js "apps", js "public.\"domains\""⟩] = some [js "projects", js "domains", js "apps"] := by
  decide

end Aoox.Snapshots
