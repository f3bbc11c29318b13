import Mathlib.Data.List.Infix

/-! # Walking a path

A path is a list of segments: a name leads into a directory, `up` leaves it (and does
nothing at the root), `here` stays.  Worked out, a relative path goes up a number of
times and then down through names (`normal`), and this decides where it ends from any
starting point (`walk_eq`) and whether that is inside the starting point
(`isPrefix_walk_iff`): the names after the steps up have to spell what those left.
-/
namespace PathWalk
variable {α : Type}

inductive Segment (α : Type) where
  | here | up | into (a : α)

def visit (place : List α) : Segment α → List α
  | .here => place
  | .up => place.dropLast
  | .into a => place ++ [a]

def walk (base : List α) (segments : List (Segment α)) : List α := segments.foldl visit base

/-- Works one more segment into a normal form. -/
def settle : Nat × List α → Segment α → Nat × List α
  | (k, names), .here => (k, names)
  | (k, []), .up => (k + 1, [])
  | (k, n :: ns), .up => (k, (n :: ns).dropLast)
  | (k, names), .into a => (k, names ++ [a])

/-- How often a relative path goes up, and the names it goes down through after that. -/
def normal (segments : List (Segment α)) : Nat × List α := segments.foldl settle (0, [])

theorem walk_append (base : List α) (p q : List (Segment α)) :
    walk base (p ++ q) = walk (walk base p) q := List.foldl_append

theorem walk_eq (base : List α) (segments : List (Segment α)) :
    walk base segments = base.take (base.length - (normal segments).1) ++ (normal segments).2 := by
  induction segments using List.reverseRecOn with
  | nil => simp [walk, normal]
  | append_singleton p seg ih =>
    have hwalk : walk base (p ++ [seg]) = visit (walk base p) seg := by simp [walk]
    have hnormal : normal (p ++ [seg]) = settle (normal p) seg := by simp [normal]
    rw [hwalk, hnormal, ih]
    obtain ⟨k, names⟩ := normal p
    cases seg with
    | here => rfl
    | into a => simp [visit, settle]
    | up =>
      cases names with
      | nil =>
        simp only [visit, settle, List.append_nil, List.dropLast_eq_take, List.take_take,
          List.length_take]
        congr 1
        omega
      | cons n ns =>
        exact List.dropLast_append_of_ne_nil (List.cons_ne_nil n ns)

/-- **A path ends inside its starting point** exactly when the names it goes down through
begin with the part of the starting point it went up from. -/
theorem isPrefix_walk_iff (base : List α) (segments : List (Segment α)) :
    base <+: walk base segments ↔
      base.drop (base.length - (normal segments).1) <+: (normal segments).2 := by
  rw [walk_eq]
  generalize base.length - (normal segments).1 = n
  calc base <+: base.take n ++ (normal segments).2
      ↔ base.take n ++ base.drop n <+: base.take n ++ (normal segments).2 := by
        rw [List.take_append_drop]
    _ ↔ base.drop n <+: (normal segments).2 := List.prefix_append_right_inj _

end PathWalk
