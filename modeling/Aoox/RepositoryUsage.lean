import Aoox.ImageReferences
import Aoox.LikePatterns
import Mathlib.Data.List.Nodup

/-! # Who uses a repository

A repository of the built-in registry is deleted unless an application uses it, and which do is
asked with one pattern over two columns: the name of the repository between a slash and a colon.
The columns hold references as they were entered, and a reference names a repository without a tag
and by a digest as well.  Behind the name of such a reference there is no colon.

So a deletion is stopped exactly by the applications with a reference that shows the name with a
tag (`usage_reports_iff`), and of the references of the repository itself these are the ones in
which a tag is written.
-/
open List Option Bool
namespace Aoox.RepositoryUsage
open JsString ImageReferences Like

/-! ## Names -/

/-- `[a-z0-9]+(?:[._-][a-z0-9]+)*`; the flag says whether a letter or digit was the last. -/
def isComponent : Bool → JsString → Bool
  | last, [] => last
  | last, c :: cs =>
    if isNameUnit c then isComponent true cs
    else last && (js "._-").contains c && isComponent false cs

def isValidRepositoryName (repository : JsString) : Bool :=
  repository ≠ [] && !includes repository (js "..") && !startsWith repository (js "/") &&
    repository.getLast? ≠ some (cu '/') && (split repository (js "/")).all (isComponent false)

/-! ## Applications -/

/-- The columns of an application that are read here. -/
structure Application where
  (id appName projectId : JsString)
  (currentImage imageRef : Option JsString)

/-- The table, whose key is the id. -/
structure Applications where
  rows : List Application
  unique : (rows.map Application.id).Nodup

structure Usage where
  (applicationId applicationName projectId : JsString)

def Application.usage (a : Application) : Usage := ⟨a.id, a.appName, a.projectId⟩

def usage (applications : Applications) (repository : JsString) : List Usage :=
  let pattern := js "%/" ++ repository ++ js ":%"
  (applications.rows.filter fun a =>
    a.currentImage.any (like pattern) || a.imageRef.any (like pattern)).map Application.usage

/-! ## Deleting -/

structure Registry where
  id : JsString
  selfHosted : Bool
  storageDestinationId : Option JsString

inductive Failure where
  | invalidName (message : JsString)
  | notFound
  | badRequest (message : JsString)
  | conflict (message : JsString) (usage : List Usage)
  | client (status : Nat) (message : JsString)
  | other (message : JsString)

/-- `describe(err)` -/
def Failure.message : Failure → JsString
  | .invalidName message => message
  | .notFound => js "Registry not found"
  | .badRequest message => message
  | .conflict message _ => message
  | .client _ message => message
  | .other message => message

/-- What is asked of the registry and of its storage that changes them. -/
inductive Call where
  | deleteManifest (repository digest : JsString)
  | purgeDir (destination repository : JsString)
  | removeRepositoryData (repository : JsString)
  | garbageCollect
  | restartRegistry

def Call.repository : Call → Option JsString
  | .deleteManifest repository _ => some repository
  | .purgeDir _ repository => some repository
  | .removeRepositoryData repository => some repository
  | .garbageCollect => none
  | .restartRegistry => none

/-- What the registries, the registry's API and its storage answer. -/
structure Outside where
  registry : JsString → Option Registry
  findSelfHosted : Option Registry
  clientFor : JsString → Except Failure Unit
  listTagNames : JsString → Except Failure (List JsString)
  getTag : JsString → JsString → Except Failure JsString
  perform : Call → Except Failure JsString

/-- The calls that were made, and the result. -/
def Deletion (α : Type) : Type := List Call × Except Failure α

namespace Deletion

def pure {α : Type} (a : α) : Deletion α := ([], .ok a)

def bind {α β : Type} (x : Deletion α) (f : α → Deletion β) : Deletion β :=
  match x.2 with
  | .error e => (x.1, .error e)
  | .ok a => (x.1 ++ (f a).1, (f a).2)

instance : Monad Deletion where
  pure := pure
  bind := bind

def ask {α : Type} (x : Except Failure α) : Deletion α := ([], x)

def call (o : Outside) (c : Call) : Deletion JsString := ([c], o.perform c)

end Deletion

open Deletion (ask call)

section Service
variable (o : Outside) (applications : Applications)

def assertValidRepositoryName (repository : JsString) : Except Failure Unit :=
  if isValidRepositoryName repository then .ok ()
  else .error (.invalidName (js "Invalid repository name: " ++ repository))

def deleteManifests (repository : JsString) : List JsString → Deletion Unit
  | [] => pure ()
  | digest :: digests => do
    let _ ← call o (.deleteManifest repository digest)
    deleteManifests repository digests

def removeRepository (registry : Registry) (repository : JsString) : Deletion (Nat × Nat) := do
  let tags ← ask (o.listTagNames repository)
  let found ← ask (tags.mapM (o.getTag repository))
  let digests := (found.filter (· ≠ [])).eraseDups
  deleteManifests o repository digests
  let _ ← call o <| match registry.storageDestinationId with
    | some destination => .purgeDir destination repository
    | none => .removeRepositoryData repository
  return (tags.length, digests.length)

structure Response where
  (deletedTags deletedManifests : Nat)
  gcOutput : JsString

def execute (registryId repository : JsString) (force : Bool) : Deletion Response := do
  ask (assertValidRepositoryName repository)
  let registry ← ask (match o.registry registryId with
    | some registry => .ok registry
    | none => .error .notFound)
  if !registry.selfHosted then
    ask (.error (.badRequest
      (js "Deleting a whole repository is only supported for the self-hosted registry")))
  else
    let users := usage applications repository
    if !force && users ≠ [] then
      ask (.error (.conflict (js "Repository is referenced by " ++ js (toString users.length) ++
        js " application(s); rollback or a config-only redeploy to that image would fail after" ++
        js " this. Pass ?force=true to delete anyway.") users))
    else
      ask (o.clientFor registryId)
      let (deletedTags, deletedManifests) ← removeRepository o registry repository
      let gcOutput ← call o .garbageCollect
      let _ ← call o .restartRegistry
      return ⟨deletedTags, deletedManifests, gcOutput⟩

/-- What comes of one of several repositories. -/
inductive Verdict where
  | absent
  | skipped (reason : JsString)
  | deleted

/-- The body of the loop of `purgeRepositories`. -/
def purgeRepository (registry : Registry) (repository : JsString) : Deletion Verdict := do
  ask (assertValidRepositoryName repository)
  let present ← ask (match o.listTagNames repository with
    | .ok _ => .ok true
    | .error (.client status message) =>
      if status = 404 then .ok false else .error (.client status message)
    | .error e => .error e)
  if !present then pure .absent
  else
    let users := usage applications repository
    if users ≠ [] then
      pure (.skipped (js "still used by " ++ join (users.map Usage.applicationName) (js ", ")))
    else
      let _ ← removeRepository o registry repository
      pure .deleted

structure PurgeReport where
  deleted : List JsString
  (skipped failed : List (JsString × JsString))

def purgeEach (registry : Registry) : List JsString → List Call × PurgeReport
  | [] => ([], ⟨[], [], []⟩)
  | repository :: repositories =>
    let x := purgeRepository o applications registry repository
    let r := purgeEach registry repositories
    (x.1 ++ r.1,
      match x.2 with
      | .ok .absent => r.2
      | .ok (.skipped reason) => { r.2 with skipped := (repository, reason) :: r.2.skipped }
      | .ok .deleted => { r.2 with deleted := repository :: r.2.deleted }
      | .error e => { r.2 with failed := (repository, e.message) :: r.2.failed })

def PurgeReport.withFailure (r : PurgeReport) : Except Failure Unit → PurgeReport
  | .ok _ => r
  | .error e => { r with failed := r.failed ++ [(js "*", e.message)] }

def purgeRepositories (repositories : List JsString) : List Call × PurgeReport :=
  match repositories, o.findSelfHosted with
  | [], _ => ([], ⟨[], [], []⟩)
  | _ :: _, none => ([], ⟨[], [], []⟩)
  | repositories, some registry =>
    match o.clientFor registry.id with
    | .error e => ([], ⟨[], [], [(js "*", e.message)]⟩)
    | .ok _ =>
      let r := purgeEach o applications registry repositories
      if r.2.deleted = [] then r
      else
        let last : Deletion Unit := do
          let _ ← call o .garbageCollect
          let _ ← call o .restartRegistry
        (r.1 ++ last.1, r.2.withFailure last.2)

end Service

/-! ## The pattern -/

theorem isComponent_units {last : Bool} {s : JsString} (h : isComponent last s = true) :
    ∀ c ∈ s, isNameUnit c = true ∨ c ∈ js "._-" := by
  induction s generalizing last with
  | nil => simp
  | cons x xs ih =>
    intro c hc
    unfold isComponent at h
    by_cases hx : isNameUnit x = true
    · rw [if_pos hx] at h
      rcases mem_cons.mp hc with rfl | hc
      · exact .inl hx
      · exact ih h c hc
    · rw [if_neg hx, and_eq_true, and_eq_true] at h
      rcases mem_cons.mp hc with rfl | hc
      · exact .inr (contains_iff_mem.mp h.1.2)
      · exact ih h.2 c hc

variable {repository : JsString}

/-- A valid name has no percent sign and no backslash in it. -/
theorem isPlain_of_valid (h : isValidRepositoryName repository = true) :
    repository.all isPlain = true := by
  rw [isValidRepositoryName, and_eq_true] at h
  refine all_eq_true.mpr fun c hc => ?_
  by_cases hslash : c = cu '/'
  · rw [hslash]
    decide
  · obtain ⟨piece, hpiece, hmem⟩ := exists_mem_split_unit hc hslash
    have hunit := isComponent_units (all_eq_true.mp h.2 piece hpiece) c hmem
    rw [isPlain, and_eq_true, decide_eq_true_eq, decide_eq_true_eq]
    constructor
    · rintro rfl
      exact absurd hunit (by decide)
    · rintro rfl
      exact absurd hunit (by decide)

/-- The name of the repository stands between a slash and a colon, an underscore of it standing for
any unit. -/
def ShowsTag (repository ref : JsString) : Prop :=
  ∃ before name after, ref = before ++ cu '/' :: (name ++ cu ':' :: after) ∧ Alike repository name

/-- **What the pattern finds.** -/
theorem like_iff (h : isValidRepositoryName repository = true) (ref : JsString) :
    like (js "%/" ++ repository ++ js ":%") ref = true ↔ ShowsTag repository ref := by
  have hfront : js "%/" = [cu '%', cu '/'] := rfl
  have hback : js ":%" = [cu ':', cu '%'] := rfl
  have hpattern : js "%/" ++ repository ++ js ":%" =
      cu '%' :: (([cu '/'] ++ (repository ++ [cu ':'])) ++ [cu '%']) := by
    rw [hfront, hback]
    simp
  have hplain : ([cu '/'] ++ (repository ++ [cu ':'])).all isPlain = true := by
    rw [all_append, all_append, isPlain_of_valid h]
    decide
  rw [hpattern, like_contains hplain]
  constructor
  · rintro ⟨before, mid, after, rfl, hmid⟩
    obtain ⟨slash, rest, rfl, hslash, hrest⟩ := alike_append.mp hmid
    obtain ⟨name, colon, rfl, hname, hcolon⟩ := alike_append.mp hrest
    rw [alike_singleton (by decide)] at hslash hcolon
    exact ⟨before, name, after, by simp [hslash, hcolon], hname⟩
  · rintro ⟨before, name, after, rfl, hname⟩
    refine ⟨before, [cu '/'] ++ (name ++ [cu ':']), after, by simp, ?_⟩
    exact alike_append.mpr ⟨_, _, rfl, .refl _, alike_append.mpr ⟨name, _, rfl, hname, .refl _⟩⟩

/-! ## The report -/

/-- The application runs the reference or is configured with it. -/
def Application.Has (a : Application) (ref : JsString) : Prop :=
  a.currentImage = some ref ∨ a.imageRef = some ref

/-- A reference of the application names the repository at this host. -/
def Names (host repository : JsString) (a : Application) : Prop :=
  ∃ ref, a.Has ref ∧ accepted ref = true ∧ (parseImageRef ref).registry = host ∧
    (parseImageRef ref).repository = repository

theorem mem_usage_iff {applications : Applications} (h : isValidRepositoryName repository = true)
    {a : Application} (ha : a ∈ applications.rows) :
    a.usage ∈ usage applications repository ↔ ∃ ref, a.Has ref ∧ ShowsTag repository ref := by
  have hrow : (a.currentImage.any (like (js "%/" ++ repository ++ js ":%")) ||
      a.imageRef.any (like (js "%/" ++ repository ++ js ":%"))) = true ↔
      ∃ ref, a.Has ref ∧ ShowsTag repository ref := by
    have hany : ∀ column : Option JsString, column.any (like (js "%/" ++ repository ++ js ":%")) =
        true ↔ ∃ ref, column = some ref ∧ ShowsTag repository ref := by
      intro column
      cases column with
      | none => simp
      | some text => simpa using like_iff h text
    rw [or_eq_true, hany, hany, ← exists_or]
    simp only [Application.Has, or_and_right]
  rw [usage, List.mem_map]
  constructor
  · rintro ⟨b, hb, husage⟩
    rw [mem_filter] at hb
    have hid : b.id = a.id := congrArg Usage.applicationId husage
    obtain rfl : b = a := inj_on_of_nodup_map applications.unique hb.1 ha hid
    exact hrow.mp hb.2
  · exact fun hshown => ⟨a, mem_filter.mpr ⟨ha, hrow.mpr hshown⟩, rfl⟩

theorem eq_of_repositoryOf {name host path : JsString} (h : repositoryOf name = ⟨host, path⟩)
    (hhost : host ≠ DOCKER_HUB) : name = host ++ cu '/' :: path ∧ cu '/' ∉ host := by
  have hofficial : ∀ {r p : JsString}, official r p = ⟨host, path⟩ → r = host ∧ p = path := by
    intro r p hr
    obtain rfl : r = host := by
      rw [official_eq] at hr
      exact congrArg Repository.registry hr
    rw [official, if_neg fun hc => hhost hc.1] at hr
    exact ⟨rfl, congrArg Repository.path hr⟩
  rcases exists_first (cu '/') name with hno | ⟨first, rest, rfl, hfirst⟩
  · rw [repositoryOf_of_not_mem hno] at h
    exact absurd (hofficial h).1.symm hhost
  · rw [repositoryOf_slash hfirst] at h
    split_ifs at h
    · obtain ⟨hregistry, rfl⟩ := hofficial h
      have hfirst' : first = host := by
        unfold registryOf at hregistry
        split_ifs at hregistry
        · exact absurd hregistry.symm hhost
        · exact hregistry
      exact ⟨by rw [hfirst'], hfirst' ▸ hfirst⟩
    · exact absurd (hofficial h).1.symm hhost

/-- What follows the name and the tag: the digest, if there is one. -/
theorem exists_digest (ref : JsString) : ∃ d, ref = (splitDigest ref).1 ++ d ∧
    (d = [] ∨ ∃ digest, d = cu '@' :: digest ∧ (splitDigest ref).2 = some digest) := by
  rcases exists_first (cu '@') ref with hno | ⟨a, b, rfl, ha⟩
  · exact ⟨[], by rw [splitDigest_of_not_mem hno, append_nil], .inl rfl⟩
  · rw [splitDigest_append ha]
    exact ⟨cu '@' :: b, rfl, .inr ⟨b, rfl, rfl⟩⟩

/-- **A reference of the repository.**  It shows the name with a tag when a tag is written in it;
its digest, without a slash, makes no difference. -/
theorem showsTag_iff {host ref : JsString} (hhost : host ≠ DOCKER_HUB)
    (haccepted : accepted ref = true) (hregistry : (parseImageRef ref).registry = host)
    (hrepository : (parseImageRef ref).repository = repository)
    (hdigest : cu '/' ∉ (parseImageRef ref).digest.getD []) :
    ShowsTag repository ref ↔ (splitTag (splitDigest ref).1).2 ≠ none := by
  have htrim := (Accepted.of haccepted).trim
  rw [parseImageRef_eq, htrim] at hregistry hrepository hdigest
  dsimp only at hregistry hrepository hdigest
  obtain ⟨hname, hslash⟩ := eq_of_repositoryOf
    (show repositoryOf _ = ⟨host, repository⟩ by rw [← hregistry, ← hrepository]) hhost
  obtain ⟨d, href, hd⟩ := exists_digest ref
  have hcolon : ∀ after, d ≠ cu ':' :: after := by
    rintro after rfl
    rcases hd with hd | ⟨digest, hd, -⟩
    · cases hd
    · exact absurd (List.cons.inj hd).1 (by decide)
  have hcount : d.count (cu '/') = 0 := by
    rcases hd with rfl | ⟨digest, rfl, hsome⟩
    · rfl
    · rw [hsome, getD_some] at hdigest
      rw [count_cons_of_ne (by decide), count_eq_zero.mpr hdigest]
  rcases splitTag_cases (splitDigest ref).1 with ⟨base, tag, hrest, hc, hs⟩ | hno
  · rw [hrest, splitTag_append hc hs] at hname ⊢
    refine iff_of_true ⟨host, repository, tag ++ d, ?_, .refl _⟩ (some_ne_none tag)
    rw [href, hrest, show base = _ from hname]
    simp
  · rw [splitTag_eq_none hno] at hname ⊢
    refine iff_of_false ?_ fun h => h rfl
    rintro ⟨before, name, after, htext, halike⟩
    have hwhole : host ++ cu '/' :: (repository ++ d) =
        before ++ cu '/' :: (name ++ cu ':' :: after) := by
      rw [← htext]
      conv_rhs => rw [href, show (splitDigest ref).1 = _ from hname]
      simp
    -- the slashes of the name are all there are behind the host
    have hslashes := congrArg (List.count (cu '/')) hwhole
    have hle := halike.count_le (c := cu '/') (by decide)
    rw [count_append, count_append, count_cons_self, count_cons_self,
      count_append, count_append, count_cons_of_ne (by decide),
      count_eq_zero.mpr hslash, hcount] at hslashes
    have hbefore : cu '/' ∉ before := count_eq_zero.mp (by omega)
    obtain ⟨-, hrest⟩ := append_cons_inj hslash hbefore hwhole
    exact hcolon after (append_inj hrest halike.length_eq).2

/-! ## The calls -/

namespace Deletion

theorem mem_bind {α β : Type} {x : Deletion α} {f : α → Deletion β} {c : Call}
    (h : c ∈ (x >>= f).1) : c ∈ x.1 ∨ ∃ a, x.2 = .ok a ∧ c ∈ (f a).1 := by
  obtain ⟨calls, _ | a⟩ := x
  · exact .inl h
  · rcases mem_append.mp h with h | h
    · exact .inl h
    · exact .inr ⟨a, rfl, h⟩

end Deletion

section Calls
variable {o : Outside} {applications : Applications} {registry : Registry} {repository : JsString}
  {c : Call}

theorem mem_deleteManifests {digests : List JsString}
    (h : c ∈ (deleteManifests o repository digests).1) : c.repository = some repository := by
  induction digests with
  | nil => cases h
  | cons digest digests ih =>
    rcases Deletion.mem_bind h with h | ⟨_, -, h⟩
    · rw [mem_singleton.mp h]
      rfl
    · exact ih h

theorem mem_removeRepository (h : c ∈ (removeRepository o registry repository).1) :
    c.repository = some repository := by
  rcases Deletion.mem_bind h with h | ⟨tags, -, h⟩
  · cases h
  rcases Deletion.mem_bind h with h | ⟨found, -, h⟩
  · cases h
  rcases Deletion.mem_bind h with h | ⟨_, -, h⟩
  · exact mem_deleteManifests h
  rcases Deletion.mem_bind h with h | ⟨_, -, h⟩
  · rw [mem_singleton.mp h]
    cases registry.storageDestinationId <;> rfl
  · cases h

/-- What is not forced makes no call while there is an application to report. -/
theorem execute_refuses (registryId : JsString) (h : usage applications repository ≠ []) :
    (execute o applications registryId repository false).1 = [] := by
  refine eq_nil_iff_forall_not_mem.mpr fun c hc => ?_
  rcases Deletion.mem_bind hc with hc | ⟨_, -, hc⟩
  · cases hc
  rcases Deletion.mem_bind hc with hc | ⟨registry, -, hc⟩
  · cases hc
  dsimp only at hc
  split_ifs at hc with htype husers
  · cases hc
  · cases hc
  · simp [h] at husers

theorem mem_purgeRepository (h : c ∈ (purgeRepository o applications registry repository).1) :
    c.repository = some repository ∧ usage applications repository = [] := by
  rcases Deletion.mem_bind h with h | ⟨_, -, h⟩
  · cases h
  rcases Deletion.mem_bind h with h | ⟨present, -, h⟩
  · cases h
  dsimp only at h
  split_ifs at h with hpresent husers
  · cases h
  · cases h
  · rcases Deletion.mem_bind h with h | ⟨_, -, h⟩
    · exact ⟨mem_removeRepository h, not_not.mp husers⟩
    · cases h

variable {r : JsString} {repositories : List JsString}

theorem mem_purgeEach (h : c ∈ (purgeEach o applications registry repositories).1)
    (hc : c.repository = some r) : usage applications r = [] := by
  induction repositories with
  | nil => cases h
  | cons repository repositories ih =>
    rcases mem_append.mp h with h | h
    · obtain ⟨hrepository, husage⟩ := mem_purgeRepository h
      obtain rfl := some.inj (hc.symm.trans hrepository)
      exact husage
    · exact ih h

/-- A purge takes nothing from a repository that an application is reported for. -/
theorem mem_purgeRepositories (h : c ∈ (purgeRepositories o applications repositories).1)
    (hc : c.repository = some r) : usage applications r = [] := by
  unfold purgeRepositories at h
  split at h
  · cases h
  · cases h
  · split at h
    · cases h
    · dsimp only at h
      split_ifs at h
      · exact mem_purgeEach h hc
      · rcases mem_append.mp h with h | h
        · exact mem_purgeEach h hc
        · rcases Deletion.mem_bind h with h | ⟨_, -, h⟩
          · rw [mem_singleton.mp h] at hc
            cases hc
          · rcases Deletion.mem_bind h with h | ⟨_, -, h⟩
            · rw [mem_singleton.mp h] at hc
              cases hc
            · cases h

end Calls

/-! ## Reported and kept -/

/-- Every application that names the repository is reported, and what is not forced takes nothing
from a repository that one names. -/
structure Reported (applications : Applications) (host repository : JsString) : Prop where
  usage : ∀ a ∈ applications.rows, Names host repository a →
    a.usage ∈ usage applications repository
  execute : ∀ o registryId, (∃ a ∈ applications.rows, Names host repository a) →
    (execute o applications registryId repository false).1 = []
  purge : ∀ o repositories, (∃ a ∈ applications.rows, Names host repository a) →
    ∀ c ∈ (purgeRepositories o applications repositories).1, c.repository ≠ some repository

/-- **Who is reported.**  Every application that names a repository is reported, and its repository
kept, exactly when each of them has a reference that shows the name with a tag.  A reference of the
repository itself does so when a tag is written in it. -/
theorem usage_reports_iff (applications : Applications) (host repository : JsString)
    (hvalid : isValidRepositoryName repository = true) :
    (Reported applications host repository ↔ ∀ a ∈ applications.rows, Names host repository a →
      ∃ ref, a.Has ref ∧ ShowsTag repository ref) ∧
    (host ≠ DOCKER_HUB → ∀ ref, accepted ref = true → (parseImageRef ref).registry = host →
      (parseImageRef ref).repository = repository →
      cu '/' ∉ (parseImageRef ref).digest.getD [] →
      (ShowsTag repository ref ↔ (splitTag (splitDigest ref).1).2 ≠ none)) := by
  refine ⟨⟨fun h a ha hnames => ?_, fun h => ?_⟩, fun hhost ref haccepted hregistry hrepository =>
    showsTag_iff hhost haccepted hregistry hrepository⟩
  · exact (mem_usage_iff hvalid ha).mp (h.usage a ha hnames)
  · have husage : ∀ a ∈ applications.rows, Names host repository a →
        a.usage ∈ usage applications repository :=
      fun a ha hnames => (mem_usage_iff hvalid ha).mpr (h a ha hnames)
    have hne : (∃ a ∈ applications.rows, Names host repository a) →
        usage applications repository ≠ [] := by
      rintro ⟨a, ha, hnames⟩
      exact List.ne_nil_of_mem (husage a ha hnames)
    exact ⟨husage, fun o registryId hex => execute_refuses registryId (hne hex),
      fun o repositories hex c hc hr => hne hex (mem_purgeRepositories hc hr)⟩

/-- An application that runs an image and is configured with it. -/
def shopApp (ref : JsString) : Application := ⟨js "1", js "shop", js "p", some ref, some ref⟩

def onlyShop (ref : JsString) : Applications := ⟨[shopApp ref], List.nodup_singleton _⟩

theorem usage_reports_tagged :
    Reported (onlyShop (js "localhost:5000/org/app:1.2")) (js "localhost:5000") (js "org/app") := by
  refine (usage_reports_iff _ (js "localhost:5000") (js "org/app") (by decide)).1.mpr ?_
  rintro a ha -
  obtain rfl := List.mem_singleton.mp ha
  exact ⟨_, .inl rfl, js "localhost:5000", js "org/app", js "1.2", by decide, Alike.refl _⟩

/-- An image of the registry without a tag: it is deployed as `latest`. -/
theorem untagged_not_reported :
    ¬ ∀ (applications : Applications) (host repository : JsString),
      isValidRepositoryName repository = true → Reported applications host repository := by
  intro h
  have hreported := h (onlyShop (js "localhost:5000/org/app")) (js "localhost:5000") (js "org/app")
    (by decide)
  have hnames : Names (js "localhost:5000") (js "org/app")
      (shopApp (js "localhost:5000/org/app")) :=
    ⟨_, .inl rfl, by decide, by decide, by decide⟩
  have hmem := hreported.usage _ (List.mem_singleton_self _) hnames
  have hnone : usage (onlyShop (js "localhost:5000/org/app")) (js "org/app") = [] := by
    decide +kernel
  rw [hnone] at hmem
  cases hmem

end Aoox.RepositoryUsage
