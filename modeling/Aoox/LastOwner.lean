import Aoox.ProjectAccess
import Aoox.Runs
import Aoox.Table

/-! # The last owner

Owners change the roles of users and delete users.  A request that takes the role from an
owner, or deletes one, first counts the owners and is refused when there is only one; the
write comes later.  Two such requests that have both counted can both write, and a request
that loaded its user before he was made an owner does not count at all.

`step` is any number of role updates and deletions, each from the check of its caller to
its write.  There is an owner in every state of a run exactly when the check would pass
again at each write that takes an owner (`hasOwner_iff`).
-/
open List
namespace Aoox.LastOwner
open JsString
open Access (User UserRole)

/-- The users, no two with the same id. -/
structure Users where
  rows : List User
  nodup : (rows.map User.id).Nodup

namespace Users

def findById (users : Users) (id : JsString) : Option User := Table.get User.id users.rows id

/-- `count({ where: { role: 'owner' } })`. -/
def ownerCount (users : Users) : Nat := users.rows.countP fun u => u.role = .owner

/-- Saving a user writes the row with his id.  A user who is gone is not added again: the
copy has no password hash, which the table requires. -/
def save (users : Users) (user : User) : Users where
  rows := Table.save User.id users.rows user
  nodup := (@Table.save_keys _ _ _ User.id users.rows user) ▸ users.nodup

def remove (users : Users) (id : JsString) : Users where
  rows := users.rows.filter fun u => u.id ≠ id
  nodup := users.nodup.sublist (List.Sublist.map _ List.filter_sublist)

end Users

/-- `assertNotLastOwner`: whether the check passes. -/
def assertNotLastOwner (users : Users) : Bool := 1 < users.ownerCount

/-- What a request is for. -/
inductive Change where
  | role (role : UserRole)
  | delete
  deriving DecidableEq

/-- The change leaves its user no owner. -/
def Change.takes : Change → Bool
  | .role r => r ≠ .owner
  | .delete => true

/-- How far a request is. -/
inductive Phase where
  /-- The caller is an owner; the user is loaded next. -/
  | loading (id : JsString)
  /-- The loaded user is an owner; the owners are counted next. -/
  | counting (user : User)
  /-- A deletion counts the projects of the user next. -/
  | projects (user : User)
  | writing (user : User)

structure State where
  users : Users
  requests : Nat → Option (Change × Phase)

inductive Action where
  /-- A caller asks for a change of the user `id`. -/
  | call (n : Nat) (actor id : JsString) (change : Change)
  | load (n : Nat)
  | count (n : Nat)
  /-- The deletion finds that the user owns so many projects. -/
  | countProjects (n owned : Nat)
  | write (n : Nat)

def initial (users : Users) : State := ⟨users, fun _ => none⟩

def State.put (s : State) (n : Nat) (change : Change) (phase : Phase) : State :=
  { s with requests := Function.update s.requests n (some (change, phase)) }

/-- The request ends. -/
def State.drop (s : State) (n : Nat) : State :=
  { s with requests := Function.update s.requests n none }

/-- The phase after the owners were counted, or did not have to be. -/
def checked (change : Change) (user : User) : Phase :=
  match change with
  | .role _ => .writing user
  | .delete => .projects user

/-- What the write leaves of the users. -/
def applied (users : Users) (change : Change) (user : User) : Users :=
  match change with
  | .role r => users.save { user with role := r }
  | .delete => users.remove user.id

def step (s : State) : Action → Option State
  | .call n actor id change =>
    if (s.requests n).isSome then none
    else if (s.users.findById actor).map User.role ≠ some .owner then some s
    else if change = .delete ∧ id = actor then some s
    else some (s.put n change (.loading id))
  | .load n =>
    match s.requests n with
    | some (change, .loading id) =>
      match s.users.findById id with
      | none => some (s.drop n)
      | some user =>
        -- a user who is promoted later is not counted
        if user.role = .owner ∧ change.takes then some (s.put n change (.counting user))
        else some (s.put n change (checked change user))
    | _ => none
  | .count n =>
    match s.requests n with
    | some (change, .counting user) =>
      if assertNotLastOwner s.users then some (s.put n change (checked change user))
      else some (s.drop n)
    | _ => none
  | .countProjects n owned =>
    match s.requests n with
    | some (change, .projects user) =>
      if 0 < owned then some (s.drop n) else some (s.put n change (.writing user))
    | _ => none
  | .write n =>
    match s.requests n with
    | some (change, .writing user) =>
      -- a plain save or delete: the role that is stored now is not looked at
      some { s.drop n with users := applied s.users change user }
    | _ => none

def HasOwner (s : State) : Prop := ∃ u ∈ s.users.rows, u.role = .owner

/-- A write that takes the role from an owner, or deletes one, is made while the check for
the last owner passes. -/
def StillPasses (s : State) : Action → Prop
  | .write n => ∀ change user, s.requests n = some (change, .writing user) →
      change.takes = true → (s.users.findById user.id).map User.role = some .owner →
        assertNotLastOwner s.users = true
  | .call _ _ _ _ | .load _ | .count _ | .countProjects _ _ => True

/-! ## The owners around one user -/

variable {users : Users} {s s' : State} {change : Change} {user : User}

theorem hasOwner_iff_count : HasOwner s ↔ 0 < s.users.ownerCount := by
  simp [HasOwner, Users.ownerCount, countP_pos_iff]

/-- The rows around the one of a user, which a write leaves as they are. -/
theorem exists_around {u : User} (h : users.findById u.id = some u) :
    ∃ pre post, users.rows = pre ++ u :: post ∧
      (∀ r, (users.save { u with role := r }).rows = pre ++ { u with role := r } :: post) ∧
      (users.remove u.id).rows = pre ++ post := by
  have hmem : u ∈ users.rows := (Table.mem_of_get h).1
  obtain ⟨pre, post, hrows, hothers⟩ := Table.exists_split users.nodup hmem
  refine ⟨pre, post, hrows, ?_, ?_⟩
  · intro r
    show Table.save User.id users.rows { u with role := r } = _
    rw [hrows]
    exact Table.save_split rfl hothers
  · have hkeep : (pre ++ post).filter (fun v => v.id ≠ u.id) = pre ++ post := by
      rw [filter_eq_self]
      intro v hv
      simpa using hothers v hv
    show users.rows.filter (fun v => v.id ≠ u.id) = pre ++ post
    rw [hrows, filter_append, filter_cons_of_neg (by simp), ← filter_append]
    exact hkeep

theorem applied_rows_of_gone (h : users.findById user.id = none) :
    (applied users change user).rows = users.rows := by
  have hids : ∀ v ∈ users.rows, v.id ≠ user.id := by
    intro v hv
    simpa using List.find?_eq_none.mp h v hv
  cases change with
  | role r =>
    show users.rows.map _ = users.rows
    refine (map_congr_left fun v hv => ?_).trans (map_id _)
    rw [if_neg (hids v hv), id_eq]
  | delete =>
    show users.rows.filter _ = users.rows
    rw [filter_eq_self]
    intro v hv
    simpa using hids v hv

theorem ownerCount_applied {u : User} (h : users.findById user.id = some u) :
    (applied users change user).ownerCount + (if u.role = .owner then 1 else 0) =
      users.ownerCount + (if change.takes then 0 else 1) := by
  obtain ⟨-, hid⟩ := Table.mem_of_get h
  obtain ⟨id, old⟩ := user
  obtain rfl : u.id = id := hid
  obtain ⟨pre, post, hrows, hsave, hremove⟩ := exists_around (show users.findById u.id = some u from h)
  have hbefore : users.ownerCount = (pre ++ u :: post).countP fun v => v.role = .owner := by
    rw [← hrows]
    rfl
  rw [hbefore]
  cases change with
  | role r =>
    have hafter : (applied users (.role r) ⟨u.id, old⟩).ownerCount =
        (pre ++ ⟨u.id, r⟩ :: post).countP fun v => v.role = .owner := by
      rw [← hsave r]
      rfl
    rw [hafter]
    simp only [countP_append, countP_cons, Change.takes]
    cases r <;> simp <;> omega
  | delete =>
    have hafter : (applied users .delete ⟨u.id, old⟩).ownerCount =
        (pre ++ post).countP fun v => v.role = .owner := by
      rw [← hremove]
      rfl
    rw [hafter]
    simp only [countP_append, countP_cons, Change.takes]
    simp
    omega

/-- **What one write does.**  It leaves an owner exactly when the check passes or no owner is
taken. -/
theorem applied_pos_iff (hpos : 0 < users.ownerCount) : 0 < (applied users change user).ownerCount ↔
      (change.takes = true → (users.findById user.id).map User.role = some .owner →
        assertNotLastOwner users = true) := by
  cases hfind : users.findById user.id with
  | none =>
    have hsame : (applied users change user).ownerCount = users.ownerCount := by
      rw [Users.ownerCount, applied_rows_of_gone hfind, Users.ownerCount]
    simp [hsame, hpos]
  | some u =>
    have hcount : (applied users change user).ownerCount + _ = _ := ownerCount_applied hfind
    simp only [Option.map_some, Option.some.injEq, assertNotLastOwner, decide_eq_true_eq]
    by_cases htakes : change.takes = true
    · by_cases howner : u.role = .owner
      · simp only [htakes, howner, if_true] at hcount
        simp only [htakes, howner, true_imp_iff]
        omega
      · simp only [htakes, howner, if_true, if_false] at hcount
        simp only [howner, false_imp_iff, implies_true, iff_true]
        omega
    · have hkeeps : change.takes = false := by simpa using htakes
      simp only [hkeeps, Bool.false_eq_true, if_false] at hcount
      simp only [hkeeps, Bool.false_eq_true, false_imp_iff, iff_true]
      split at hcount <;> omega

/-! ## Runs -/

/-- Every step but a write leaves the users alone. -/
theorem step_cases {a : Action} (h : step s a = some s') : s'.users = s.users ∨
      ∃ n change user, a = .write n ∧ s.requests n = some (change, .writing user) ∧
        s'.users = applied s.users change user := by
  cases a with
  | call n actor id change =>
    left
    simp only [step] at h
    split at h
    · cases h
    · split at h
      · cases h
        rfl
      · split at h
        · cases h
          rfl
        · cases h
          rfl
  | load n =>
    left
    simp only [step] at h
    split at h
    · split at h
      · cases h
        rfl
      · split at h
        · cases h
          rfl
        · cases h
          rfl
    · cases h
  | count n =>
    left
    simp only [step] at h
    split at h
    · split at h
      · cases h
        rfl
      · cases h
        rfl
    · cases h
  | countProjects n owned =>
    left
    simp only [step] at h
    split at h
    · split at h
      · cases h
        rfl
      · cases h
        rfl
    · cases h
  | write n =>
    right
    simp only [step] at h
    split at h
    · rename_i change user hreq
      cases h
      exact ⟨n, change, user, rfl, hreq, rfl⟩
    · cases h

theorem HasOwner.step {a : Action} (h : HasOwner s) (ha : StillPasses s a)
    (hstep : step s a = some s') : HasOwner s' := by
  rw [hasOwner_iff_count] at h ⊢
  rcases step_cases hstep with hsame | ⟨n, change, user, rfl, hreq, happlied⟩
  · rw [hsame]
    exact h
  · rw [happlied]
    exact (applied_pos_iff h).mpr (ha change user hreq)

theorem HasOwner.breaks {a : Action} (h : HasOwner s) (ha : ¬ StillPasses s a) :
    ∃ s', LastOwner.step s a = some s' ∧ ¬ HasOwner s' := by
  cases a with
  | write n =>
    simp only [StillPasses, not_forall] at ha
    obtain ⟨change, user, hreq, htakes, howner, hfail⟩ := ha
    refine ⟨{ s.drop n with users := applied s.users change user }, ?_, ?_⟩
    · simp only [LastOwner.step, hreq]
    · rw [hasOwner_iff_count] at h ⊢
      intro hpos
      exact hfail ((applied_pos_iff h).mp hpos htakes howner)
  | call n actor id change => exact absurd trivial ha
  | load n => exact absurd trivial ha
  | count n => exact absurd trivial ha
  | countProjects n owned => exact absurd trivial ha

/-- **There is always an owner** exactly when the check for the last owner would pass again
at every write that takes one. -/
theorem hasOwner_iff (users : Users) (howner : ∃ u ∈ users.rows, u.role = .owner)
    (as : List Action) :
    Runs.Throughout step HasOwner (initial users) as ↔
      Runs.Meets step StillPasses (initial users) as :=
  Runs.throughout_iff_meets (fun _ _ _ h ha hstep => h.step ha hstep) (fun _ h => h)
    (fun _ _ h ha => h.breaks ha) as (initial users) howner

def twoOwners : Users := ⟨[⟨js "1", .owner⟩, ⟨js "2", .owner⟩], by decide⟩

/-- One of two owners makes the other a member. -/
theorem hasOwner_demotion :
    (∃ u ∈ twoOwners.rows, u.role = .owner) ∧
      Runs.Throughout step HasOwner (initial twoOwners)
        [.call 1 (js "1") (js "2") (.role .member), .load 1, .count 1, .write 1] := by
  have howner : ∃ u ∈ twoOwners.rows, u.role = .owner := ⟨⟨js "1", .owner⟩, by decide, rfl⟩
  refine ⟨howner, (hasOwner_iff twoOwners howner _).mpr ?_⟩
  refine Runs.meets_cons rfl trivial (Runs.meets_cons rfl trivial (Runs.meets_cons rfl trivial ?_))
  refine Runs.meets_cons rfl ?_ trivial
  intro change user _ _ _
  rfl

/-- Two owners take the role from each other. -/
theorem both_owners_demoted :
    ¬ ∀ (as : List Action) (s : State),
      Runs.exec step (initial twoOwners) as = some s → HasOwner s := by
  intro h
  have hrun := h [.call 1 (js "1") (js "2") (.role .member),
    .call 2 (js "2") (js "1") (.role .member), .load 1, .load 2, .count 1, .count 2, .write 1, .write 2] _ rfl
  rw [hasOwner_iff_count] at hrun
  exact absurd hrun (by decide)

end Aoox.LastOwner
