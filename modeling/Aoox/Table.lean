import Mathlib.Data.List.Nodup
import Mathlib.Data.List.Perm.Basic

/-! # Rows under a primary key

A table is a list of rows with a key each, no two rows with the same key.  Saving a row
that is already there replaces it and leaves every other row where it is.  What is
proved about a saved table is proved by taking the table apart at that row
(`exists_split` and `save_split`).  Rows that are inserted one after the other are
accepted up to the first whose key is there already (`accepted`).
-/
open List
namespace Table
variable {R K : Type} [DecidableEq K] (key : R → K)

def get (rows : List R) (k : K) : Option R := rows.find? fun r => key r = k

def save (rows : List R) (row : R) : List R := rows.map fun r => if key r = key row then row else r

variable {key}

variable {rows : List R} {r : R}

theorem mem_of_get {k : K} (h : get key rows k = some r) : r ∈ rows ∧ key r = k := by
  exact ⟨List.mem_of_find?_eq_some h, by simpa using List.find?_some h⟩

theorem save_keys (rows : List R) (row : R) : (save key rows row).map key = rows.map key := by
  unfold save
  rw [map_map]
  apply map_congr_left
  intro r _
  by_cases h : key r = key row
  · simp [h]
  · simp [h]

omit [DecidableEq K] in
theorem concat_keys_nodup (hkeys : (rows.map key).Nodup) {row : R}
    (hfresh : key row ∉ rows.map key) : ((rows ++ [row]).map key).Nodup := by
  rw [map_append]
  refine nodup_append.mpr ⟨hkeys, by simp, ?_⟩
  rintro k hk k' hk' rfl
  rw [map_singleton, mem_singleton] at hk'
  exact hfresh (hk' ▸ hk)

omit [DecidableEq K] in
theorem exists_split (hkeys : (rows.map key).Nodup) (hr : r ∈ rows) :
    ∃ pre post, rows = pre ++ r :: post ∧ ∀ r' ∈ pre ++ post, key r' ≠ key r := by
  obtain ⟨pre, post, rfl⟩ := append_of_mem hr
  refine ⟨pre, post, rfl, ?_⟩
  intro r' hr' he
  have hperm : (pre ++ r :: post).Perm (r :: (pre ++ post)) := perm_middle
  have hcons := (hperm.map key).nodup_iff.mp hkeys
  rw [map_cons, nodup_cons] at hcons
  exact hcons.1 (he ▸ mem_map_of_mem hr')

theorem get_of_mem (hkeys : (rows.map key).Nodup) (hr : r ∈ rows) :
    get key rows (key r) = some r := by
  obtain ⟨pre, post, rfl, hothers⟩ := exists_split hkeys hr
  have hpre : pre.find? (fun r' => key r' = key r) = none := by
    rw [List.find?_eq_none]
    intro r' hr'
    simpa using hothers r' (mem_append_left _ hr')
  unfold get
  rw [List.find?_append, hpre, Option.none_or]
  exact List.find?_cons_of_pos (by simp)

theorem save_split {pre post : List R} {row : R} (hrow : key row = key r)
    (hothers : ∀ r' ∈ pre ++ post, key r' ≠ key r) :
    save key (pre ++ r :: post) row = pre ++ row :: post := by
  have hkeep : ∀ rs : List R, (∀ r' ∈ rs, key r' ≠ key r) →
      rs.map (fun r' => if key r' = key row then row else r') = rs := by
    intro rs hrs
    refine (map_congr_left fun r' hr' => ?_).trans (map_id rs)
    rw [if_neg (hrow ▸ hrs r' hr'), id_eq]
  unfold save
  rw [map_append, map_cons, if_pos hrow.symm,
    hkeep pre fun r' h => hothers r' (mem_append_left _ h),
    hkeep post fun r' h => hothers r' (mem_append_right _ h)]

variable (key) in
/-- The rows that get in when they are inserted in order and the first repeated key ends the
insertion. -/
def accepted : List K → List R → List R
  | _, [] => []
  | seen, r :: rs => if key r ∈ seen then [] else r :: accepted (seen ++ [key r]) rs

theorem accepted_map {Q : Type} (f : Q → R) (seen : List K) (qs : List Q) :
    accepted key seen (qs.map f) = (accepted (key ∘ f) seen qs).map f := by
  induction qs generalizing seen with
  | nil => rfl
  | cons q qs ih =>
    simp only [map_cons, accepted, Function.comp_apply]
    split
    · rfl
    · rw [ih, map_cons]

omit [DecidableEq K] in
/-- What a row by row import leaves of a list is the list exactly when it leaves every row as
it is. -/
theorem filterMap_eq_self_iff {f : R → Option R} :
    rows.filterMap f = rows ↔ ∀ r ∈ rows, f r = some r := by
  induction rows with
  | nil => simp
  | cons r rows ih =>
    cases hf : f r with
    | none =>
      refine iff_of_false ?_ ?_
      · intro heq
        have hle := length_filterMap_le f rows
        have hlen := congrArg List.length heq
        rw [filterMap_cons_none hf, length_cons] at hlen
        omega
      · intro h
        rw [h r mem_cons_self] at hf
        cases hf
    | some r' =>
      rw [filterMap_cons_some hf, List.cons.injEq, forall_mem_cons, ih, hf, Option.some.injEq]

end Table
