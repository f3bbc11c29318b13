import Aoox.JsString
import Aoox.Assoc
import Mathlib.Data.List.Nodup

/-! # Who may see which project

One access rule is written three times: for a single project (`roleFor`), as a list
of ids (`accessibleProjectIds`) and as a map from ids to roles (`projectRoles`).  The
rule itself: platform owners and admins see every project as `admin`, the creator of a
project sees it as `admin`, anyone else needs a membership row, and the project scope of
an API token cuts all of this down.

`accessRole` states the rule once.  Each of the three functions is shown to compute it
on every project of the database, so they agree with each other; and since a scope
enters the rule only as a filter, adding one never adds a project or raises a role.
-/
open List
namespace Aoox.Access

/-! ## Rows -/

inductive UserRole where
  | owner | admin | member
  deriving DecidableEq, Repr

inductive ProjectRole where
  | admin | developer | viewer
  deriving DecidableEq, Repr

/-- How much a role may do: a `viewer` reads, a `developer` deploys and edits, an
`admin` also manages members. -/
def ProjectRole.rank : ProjectRole → Nat
  | .viewer => 0
  | .developer => 1
  | .admin => 2

structure User where
  id : JsString
  role : UserRole
  deriving DecidableEq

structure Project where
  (id ownerId : JsString)
  deriving DecidableEq

structure ProjectMember where
  (projectId userId : JsString)
  role : ProjectRole

/-- The three tables the access rule reads, with their primary keys and the unique
index of `project_members`. -/
structure Database where
  users : List User
  projects : List Project
  members : List ProjectMember
  usersUnique : (users.map User.id).Nodup
  projectsUnique : (projects.map Project.id).Nodup
  membersUnique : (members.map fun m => (m.projectId, m.userId)).Nodup

/-- What the request context says about the credential, as far as projects go:
`projectIds = none` is a token (or a session) for whatever its user may see. -/
structure TokenScope where
  projectIds : Option (List JsString)

/-- `currentTokenScope()?.projectIds ?? null`; background work has no scope at all. -/
def scopeIds (current : Option TokenScope) : Option (List JsString) :=
  current.bind TokenScope.projectIds

/-! ## The three computations -/

def platformRole (db : Database) (userId : JsString) : Option UserRole :=
  (db.users.find? fun u => u.id = userId).map User.role

/-- `role === 'owner' || role === 'admin'`. -/
def isPlatform (db : Database) (userId : JsString) : Bool :=
  platformRole db userId = some .owner || platformRole db userId = some .admin

/-- The ids of the projects the user created. -/
def owned (db : Database) (userId : JsString) : List JsString :=
  (db.projects.filter fun p => p.ownerId = userId).map Project.id

def memberships (db : Database) (userId : JsString) : List ProjectMember :=
  db.members.filter fun m => m.userId = userId

/-- Every project, or the listed ones. -/
inductive Accessible (α : Type) where
  | all
  | only (some : α)

def accessibleProjectIds (db : Database) (current : Option TokenScope) (userId : JsString) :
    Accessible (List JsString) :=
  if isPlatform db userId then
    match scopeIds current with
    | some scope => .only scope
    | none => .all
  else
    let own := (owned db userId ++ (memberships db userId).map ProjectMember.projectId).eraseDups
    match scopeIds current with
    | some scope => .only (scope.filter fun id => id ∈ own)
    | none => .only own

/-- Drops every key outside the scope: the loop over `[...roles.keys()]`. -/
def restrict (scope : List JsString) (roles : List (JsString × ProjectRole)) :
    List (JsString × ProjectRole) :=
  (roles.map Prod.fst).foldl (fun m id => if id ∈ scope then m else Assoc.erase m id) roles

/-- The role in every project the user may see, and whether the user runs the
instance. -/
def projectRoles (db : Database) (current : Option TokenScope) (userId : JsString) :
    Bool × Accessible (List (JsString × ProjectRole)) :=
  if isPlatform db userId then
    match scopeIds current with
    | some scope => (true, .only (Assoc.ofList (scope.map fun id => (id, .admin))))
    | none => (true, .all)
  else
    let roles := Assoc.setAll
      (Assoc.setAll [] ((memberships db userId).map fun m => (m.projectId, m.role)))
      ((owned db userId).map fun id => (id, .admin))
    match scopeIds current with
    | some scope => (false, .only (restrict scope roles))
    | none => (false, .only roles)

/-- The role inside one project, `none` when the user may not see it. -/
def roleFor (db : Database) (current : Option TokenScope) (userId : JsString)
    (project : Project) : Option ProjectRole :=
  if (scopeIds current).any fun scope => project.id ∉ scope then none
  else if isPlatform db userId then some .admin
  else if project.ownerId = userId then some .admin
  else (db.members.find? fun m => m.projectId = project.id ∧ m.userId = userId).map
    ProjectMember.role

/-! ## Reading the answers -/

def Accessible.has (ids : Accessible (List JsString)) (id : JsString) : Bool :=
  match ids with
  | .all => true
  | .only ids => id ∈ ids

/-- The entry of an id; for `'all'` every project is there, as `admin`. -/
def Accessible.roleOf (roles : Accessible (List (JsString × ProjectRole))) (id : JsString) :
    Option ProjectRole :=
  match roles with
  | .all => some .admin
  | .only roles => Assoc.get roles id

/-! ## The rule -/

def ownRole (db : Database) (userId id : JsString) : Option ProjectRole :=
  if isPlatform db userId then some .admin
  else if id ∈ owned db userId then some .admin
  else Assoc.get ((memberships db userId).map fun m => (m.projectId, m.role)) id

/-- **The access rule**: the role of the user, unless the credential is limited to
other projects. -/
def accessRole (db : Database) (current : Option TokenScope) (userId id : JsString) :
    Option ProjectRole :=
  if (scopeIds current).any fun scope => id ∉ scope then none else ownRole db userId id

variable {db : Database} {current : Option TokenScope} {userId id : JsString}

theorem accessRole_of_unscoped
    (h : scopeIds current = none) : accessRole db current userId id = ownRole db userId id := by
  simp [accessRole, h]

theorem accessRole_of_scope {scope : List JsString} (h : scopeIds current = some scope) :
    accessRole db current userId id = if id ∈ scope then ownRole db userId id else none := by
  by_cases hid : id ∈ scope <;> simp [accessRole, h, hid]

/-! ### One project -/

/-- The owner column of a row decides whether its id is among the owned ones. -/
theorem mem_owned_iff {project : Project}
    (hp : project ∈ db.projects) : project.id ∈ owned db userId ↔ project.ownerId = userId := by
  simp only [owned, mem_map, mem_filter, decide_eq_true_eq]
  constructor
  · rintro ⟨q, ⟨hq, rfl⟩, hid⟩
    have := inj_on_of_nodup_map db.projectsUnique hq hp hid
    rw [this]
  · intro ho
    exact ⟨project, ⟨hp, ho⟩, rfl⟩

/-- Looking up the membership row of one project is reading the user's rows as a map. -/
theorem find_member (members : List ProjectMember) (userId id : JsString) :
    (members.find? fun m => m.projectId = id ∧ m.userId = userId).map ProjectMember.role =
      Assoc.get ((members.filter fun m => m.userId = userId).map
        fun m => (m.projectId, m.role)) id := by
  induction members with
  | nil => rfl
  | cons m members ih =>
    by_cases hu : m.userId = userId
    · by_cases hid : m.projectId = id
      · simp [hu, hid, Assoc.get]
      · simpa [hu, hid, Assoc.get] using ih
    · simpa [hu] using ih

theorem roleFor_eq {project : Project} (hp : project ∈ db.projects) :
    roleFor db current userId project = accessRole db current userId project.id := by
  rw [roleFor, accessRole, ownRole, memberships, ← find_member]
  by_cases ho : project.ownerId = userId <;> simp [ho, mem_owned_iff hp]

/-! ### The list of ids -/

theorem ownRole_isSome_iff (hu : isPlatform db userId = false) :
    (ownRole db userId id).isSome = true ↔
      id ∈ owned db userId ++ (memberships db userId).map ProjectMember.projectId := by
  rw [ownRole, hu, mem_append]
  by_cases ho : id ∈ owned db userId
  · simp [ho]
  · simp [ho, Assoc.get_isSome_iff, Function.comp_def]

theorem has_accessibleProjectIds (db : Database) (current : Option TokenScope)
    (userId id : JsString) :
    (accessibleProjectIds db current userId).has id = (accessRole db current userId id).isSome := by
  rw [Bool.eq_iff_iff]
  by_cases hu : isPlatform db userId = true
  · cases hs : scopeIds current with
    | none => simp [accessibleProjectIds, hu, hs, Accessible.has, accessRole, ownRole]
    | some scope =>
      by_cases hid : id ∈ scope <;>
        simp [accessibleProjectIds, hu, hs, Accessible.has, accessRole, ownRole, hid]
  · have hu : isPlatform db userId = false := by simpa using hu
    have hown := @ownRole_isSome_iff db userId id hu
    cases hs : scopeIds current with
    | none =>
      rw [accessRole_of_unscoped hs, hown]
      simp [accessibleProjectIds, hu, hs, Accessible.has]
    | some scope =>
      rw [accessRole_of_scope hs]
      by_cases hid : id ∈ scope
      · rw [if_pos hid, hown]
        simp [accessibleProjectIds, hu, hs, Accessible.has, hid]
      · simp [accessibleProjectIds, hu, hs, Accessible.has, hid]

/-! ### The map of roles -/

/-- The user's rows name each project once. -/
theorem memberships_nodup (db : Database) (userId : JsString) :
    ((memberships db userId).map ProjectMember.projectId).Nodup := by
  have hpairs : ((memberships db userId).map fun m => (m.projectId, m.userId)).Nodup :=
    db.membersUnique.sublist (filter_sublist.map _)
  have hsame : (memberships db userId).map (fun m => (m.projectId, m.userId)) =
      ((memberships db userId).map ProjectMember.projectId).map fun id => (id, userId) := by
    rw [map_map]
    refine map_congr_left fun m hm => ?_
    have : m.userId = userId := by simpa using (mem_filter.mp hm).2
    simp [this]
  rw [hsame] at hpairs
  exact Nodup.of_map _ hpairs

/-- Reading a map without repeated keys from the other end changes nothing. -/
theorem get_reverse {m : List (JsString × ProjectRole)} (h : (m.map Prod.fst).Nodup)
    (id : JsString) : Assoc.get m.reverse id = Assoc.get m id := by
  cases hget : Assoc.get m id with
  | none =>
    rw [Assoc.get_eq_none_iff] at hget ⊢
    simpa using hget
  | some role =>
    have hmem : (id, role) ∈ m.reverse := mem_reverse.mpr (Assoc.mem_of_get hget)
    have hnodup : (m.reverse.map Prod.fst).Nodup := by
      rw [map_reverse]
      exact nodup_reverse.mpr h
    exact Assoc.get_of_mem hnodup hmem

theorem get_const (ids : List JsString) (role : ProjectRole) (id : JsString) :
    Assoc.get (ids.map fun id => (id, role)) id = if id ∈ ids then some role else none := by
  induction ids with
  | nil => rfl
  | cons a ids ih =>
    by_cases ha : a = id
    · simp [Assoc.get, ha]
    · simp [Assoc.get, ha, Ne.symm ha, ih]

theorem get_foldl_erase (scope ids : List JsString) (m : List (JsString × ProjectRole))
    (id : JsString) :
    Assoc.get (ids.foldl (fun m i => if i ∈ scope then m else Assoc.erase m i) m) id =
      if id ∈ ids ∧ id ∉ scope then none else Assoc.get m id := by
  induction ids generalizing m with
  | nil => simp
  | cons a ids ih =>
    rw [foldl_cons, ih]
    by_cases ha : a ∈ scope
    · by_cases hid : id = a
      · subst hid
        simp [ha]
      · simp [ha, hid]
    · by_cases hid : id = a
      · subst hid
        simp [ha, Assoc.get_erase]
      · simp [ha, hid, Assoc.get_erase, Ne.symm hid]

theorem get_restrict (scope : List JsString) (roles : List (JsString × ProjectRole))
    (id : JsString) :
    Assoc.get (restrict scope roles) id = if id ∈ scope then Assoc.get roles id else none := by
  rw [restrict, get_foldl_erase]
  by_cases hs : id ∈ scope
  · simp [hs]
  · by_cases hk : id ∈ roles.map Prod.fst
    · rw [if_pos ⟨hk, hs⟩, if_neg hs]
    · rw [if_neg fun h => hk h.1, if_neg hs, Assoc.get_eq_none_iff.mpr hk]

/-- Before the scope is applied the map holds the role of every project. -/
theorem get_roles (hu : isPlatform db userId = false) (id : JsString) : Assoc.get (Assoc.setAll
      (Assoc.setAll [] ((memberships db userId).map fun m => (m.projectId, m.role)))
      ((owned db userId).map fun id => (id, .admin))) id = ownRole db userId id := by
  have hnodup : (((memberships db userId).map fun m => (m.projectId, m.role)).map
      Prod.fst).Nodup := by
    simpa [Function.comp_def] using memberships_nodup db userId
  rw [Assoc.get_setAll, Assoc.get_setAll, ← map_reverse, get_const, get_reverse hnodup, ownRole, hu]
  by_cases ho : id ∈ owned db userId <;> simp [ho]

theorem roleOf_projectRoles (db : Database) (current : Option TokenScope) (userId id : JsString) :
    (projectRoles db current userId).2.roleOf id = accessRole db current userId id := by
  by_cases hu : isPlatform db userId = true
  · cases hs : scopeIds current with
    | none => simp [projectRoles, hu, hs, Accessible.roleOf, accessRole, ownRole]
    | some scope =>
      have hget : Assoc.get (Assoc.ofList (scope.map fun id => (id, ProjectRole.admin))) id =
          if id ∈ scope then some .admin else none := by
        rw [Assoc.get_ofList, ← map_reverse, get_const]
        simp
      simp only [projectRoles, hu, hs, Accessible.roleOf, if_true, hget, accessRole_of_scope hs,
        ownRole]
  · have hu : isPlatform db userId = false := by simpa using hu
    cases hs : scopeIds current with
    | none =>
      rw [accessRole_of_unscoped hs, ← get_roles hu]
      simp [projectRoles, hu, hs, Accessible.roleOf]
    | some scope =>
      rw [accessRole_of_scope hs, ← get_roles hu, ← get_restrict]
      simp [projectRoles, hu, hs, Accessible.roleOf]

/-! ## Scopes narrow -/

/-- What is seen under a scope is seen without it, in the same role. -/
theorem accessRole_le {unscoped : Option TokenScope} {role : ProjectRole}
    (hun : scopeIds unscoped = none) (h : accessRole db current userId id = some role) :
    accessRole db unscoped userId id = some role := by
  rw [accessRole_of_unscoped hun]
  rw [accessRole] at h
  split at h
  · cases h
  · exact h

/-- **The three computations are one rule, and a scope only narrows it.**  For every
project of the database they agree on whether the user sees it and in which role; and
whatever is accessible with a token scope is accessible without one, in a role that is
no lower. -/
theorem access_computations_agree (db : Database) (current : Option TokenScope)
    (userId : JsString) (project : Project) (hp : project ∈ db.projects) :
    ((roleFor db current userId project).isSome = true ↔
      (accessibleProjectIds db current userId).has project.id = true) ∧
    (projectRoles db current userId).2.roleOf project.id = roleFor db current userId project ∧
    (∀ unscoped id, scopeIds unscoped = none →
      (accessibleProjectIds db current userId).has id = true →
      (accessibleProjectIds db unscoped userId).has id = true) ∧
    (∀ unscoped role, scopeIds unscoped = none → roleFor db current userId project = some role →
      ∃ role', roleFor db unscoped userId project = some role' ∧ role.rank ≤ role'.rank) ∧
    (∀ unscoped id role, scopeIds unscoped = none →
      (projectRoles db current userId).2.roleOf id = some role →
      ∃ role', (projectRoles db unscoped userId).2.roleOf id = some role' ∧
        role.rank ≤ role'.rank) := by
  refine ⟨?_, ?_, ?_, ?_, ?_⟩
  · rw [has_accessibleProjectIds, roleFor_eq hp]
  · rw [roleOf_projectRoles, roleFor_eq hp]
  · intro unscoped id hun hid
    rw [has_accessibleProjectIds] at hid ⊢
    obtain ⟨role, hrole⟩ := Option.isSome_iff_exists.mp hid
    rw [accessRole_le hun hrole]
    rfl
  · intro unscoped role hun hrole
    rw [roleFor_eq hp] at hrole
    exact ⟨role, by rw [roleFor_eq hp, accessRole_le hun hrole], le_rfl⟩
  · intro unscoped id role hun hrole
    rw [roleOf_projectRoles] at hrole
    exact ⟨role, by rw [roleOf_projectRoles, accessRole_le hun hrole], le_rfl⟩

/-- Two projects, of which the member `u` created one and views the other. -/
def sampleDatabase : Database where
  users := [⟨js "u", .member⟩, ⟨js "o", .owner⟩]
  projects := [⟨js "p", js "u"⟩, ⟨js "q", js "o"⟩]
  members := [⟨js "q", js "u", .viewer⟩, ⟨js "p", js "u", .developer⟩]
  usersUnique := by decide
  projectsUnique := by decide
  membersUnique := by decide

theorem access_computations_agree_sample :
    roleFor sampleDatabase (some ⟨some [js "q", js "r"]⟩) (js "u") ⟨js "q", js "o"⟩ =
      some .viewer ∧
    (projectRoles sampleDatabase (some ⟨some [js "q", js "r"]⟩) (js "u")).2.roleOf (js "q") =
      roleFor sampleDatabase (some ⟨some [js "q", js "r"]⟩) (js "u") ⟨js "q", js "o"⟩ :=
  ⟨by decide, (access_computations_agree sampleDatabase (some ⟨some [js "q", js "r"]⟩) (js "u")
    ⟨js "q", js "o"⟩ (by decide)).2.1⟩

end Aoox.Access
