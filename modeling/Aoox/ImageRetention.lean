import Aoox.JsString
import Aoox.Contents
import Mathlib.Data.List.Sort

/-! # Retention of deployment images

The nightly cleanup keeps the newest successful deployments of every application for
rollback and discards the images of the others.  Whether an image is still needed is
decided by its reference: no row that is kept may name it.  The registry however deletes
a manifest by its digest, and with it every tag that points at it: a rebuild that gave the
same image, or another application that runs the same tag, loses its image too
(`current_image_deleted`).

A run removes exactly the manifests that the discarded references point at when it
begins (`cleanup_tags`), whatever fails on the way, so what is kept can still be pulled
exactly when no discarded reference shares its manifest (`images_kept_iff`).
-/
open List
namespace Aoox.Retention

open JsString

/-! ## Deployments -/

inductive DeploymentStatus where
  | queued | building | pushing | starting | success | failed
  deriving DecidableEq, Repr

structure Deployment where
  id : JsString
  status : DeploymentStatus
  imageRef : Option JsString
  createdAt : Nat

structure Application where
  id : JsString
  (serverId currentImage : Option JsString)
  deploymentKeep : Nat
  deployments : List Deployment

/-- Successful deployments beyond `deploymentKeep`, newest first, never the current
image's; each with its image. -/
def prunableDeployments (app : Application) : List (JsString × JsString) :=
  let rows := (app.deployments.filter (·.status = .success)).insertionSort
    fun a b => b.createdAt ≤ a.createdAt
  (rows.filterMap fun d => d.imageRef.bind fun ref =>
    if ref ≠ [] ∧ some ref ≠ app.currentImage then some (d.id, ref) else none).drop
      (max app.deploymentKeep 1)

def Application.oldIds (app : Application) : List JsString :=
  (prunableDeployments app).map Prod.fst

/-! ## The daemon and the registry -/

/-- The row of the self-hosted registry. -/
structure Registry where
  url : JsString

/-- Image references on each daemon, and the digest of every tag of a repository. -/
structure Site where
  images : List (Option JsString × JsString)
  tags : JsString × JsString → Option JsString

/-- Untags an image; other references to it stay. -/
def removeImage (site : Site) (server : Option JsString) (ref : JsString) : Site :=
  { site with images := site.images.filter (· ≠ (server, ref)) }

def getTag (site : Site) (repository tag : JsString) : Option JsString := site.tags (repository, tag)

/-- Deletion is by digest: every tag of the repository that points at it goes. -/
def deleteManifest (site : Site) (repository digest : JsString) : Site :=
  { site with tags := Contents.remove Prod.fst site.tags repository digest }

def inRegistry (r : Registry) (ref : JsString) : Bool := startsWith ref (r.url ++ [cu '/'])

/-- `const [repo, tag] = ref.slice(url.length + 1).split(':')`; a missing tag is spelled
`undefined` in the request. -/
def repoTag (r : Registry) (ref : JsString) : JsString × JsString :=
  match split (sliceFrom ref (r.url.length + 1)) [cu ':'] with
  | repo :: tag :: _ => (repo, tag)
  | [repo] => (repo, js "undefined")
  | [] => ([], js "undefined")

/-- Looks the digest of a tag up and deletes its manifest. -/
def deleteRef (r : Registry) (site : Site) (ref : JsString) : Site :=
  match getTag site (repoTag r ref).1 (repoTag r ref).2 with
  | none => site
  | some digest => deleteManifest site (repoTag r ref).1 digest

theorem deleteRef_tags (r : Registry) (site : Site) (ref : JsString) :
    (deleteRef r site ref).tags = Contents.removeBy Prod.fst site.tags (repoTag r ref) := by
  unfold deleteRef Contents.removeBy getTag
  split <;> rename_i h
  · simp [h]
  · simp [h, deleteManifest]

/-- What `docker pull` asks the registry for; a reference with a digest has no tag. -/
def pulledTag (r : Registry) (ref : JsString) : Option (JsString × JsString) :=
  if inRegistry r ref && !includes (sliceFrom ref (r.url.length + 1)) [cu '@'] then
    match split (sliceFrom ref (r.url.length + 1)) [cu ':'] with
    | [repo] => some (repo, js "latest")
    | [repo, tag] => some (repo, tag)
    | _ => none
  else none

/-- The image can be pulled by its tag. -/
def Site.Pulls (site : Site) (r : Registry) (ref : JsString) : Prop :=
  ∃ k, pulledTag r ref = some k ∧ site.tags k ≠ none

/-! ## A cleanup -/

/-- What the calls of a run answer: whether the daemon and the registry of an
application could be reached, and for each pruned deployment whether the daemon
untagged the image, the registry answered, and the rows could be read and written. -/
structure Answers where
  (opened untags deletes reads writes : JsString → Bool)
  deletesRows : Bool

/-- The state of the loop over the deployments of one application. -/
structure Pruning where
  deployments : List Deployment
  site : Site
  removed : List JsString

/-- Forgets the image of a deployment. -/
def clearImage (id : JsString) (rows : List Deployment) : List Deployment :=
  rows.map fun d => if d.id = id then { d with imageRef := none } else d

/-- A row that is not pruned names the image. -/
def stillUsed (oldIds : List JsString) (rows : List Deployment) (ref : JsString) : Bool :=
  rows.any fun d => d.imageRef = some ref && !oldIds.contains d.id

/-- Registry images are only kept for applications of the local host. -/
def registryFor (registry : Option Registry) (app : Application) : Option Registry :=
  if app.serverId.isSome then none else registry

/-- Removes the image of a deployment from the daemon and the registry. -/
def discard (answers : Answers) (registry : Option Registry) (app : Application) (p : Pruning)
    (id ref : JsString) : Pruning :=
  let site := if answers.untags id then removeImage p.site app.serverId ref else p.site
  let site := match registryFor registry app with
    | some r => if inRegistry r ref && answers.deletes id then deleteRef r site ref else site
    | none => site
  { p with site := site, removed := ref :: p.removed }

/-- Removes the image unless a row that is kept needs it. -/
def discardUnused (answers : Answers) (registry : Option Registry) (app : Application)
    (oldIds : List JsString) (p : Pruning) (id ref : JsString) : Pruning :=
  if stillUsed oldIds p.deployments ref then p else discard answers registry app p id ref

/-- The loop over the prunable deployments; it ends early when a row cannot be read
or written. -/
def pruneLoop (answers : Answers) (registry : Option Registry) (app : Application)
    (oldIds : List JsString) : List (JsString × JsString) → Pruning → Pruning × Bool
  | [], p => (p, true)
  | (id, ref) :: old, p =>
    if p.removed.contains ref then
      if answers.writes id then
        pruneLoop answers registry app oldIds old
          { p with deployments := clearImage id p.deployments }
      else (p, false)
    else if !answers.reads id then (p, false)
    else
      let p := discardUnused answers registry app oldIds p id ref
      if answers.writes id then
        pruneLoop answers registry app oldIds old
          { p with deployments := clearImage id p.deployments }
      else (p, false)

/-- Prunes one application: its rows, the site, and the counts unless a call failed. -/
def pruneApp (answers : Answers) (registry : Option Registry) (app : Application) (site : Site) :
    Application × Site × Option (Nat × Nat) :=
  let old := prunableDeployments app
  if old = [] then (app, site, some (0, 0))
  else if !answers.opened app.id then (app, site, none)
  else
    let (p, done) := pruneLoop answers registry app app.oldIds old ⟨app.deployments, site, []⟩
    ({ app with deployments := p.deployments }, p.site,
      if done then some (old.length, p.removed.length) else none)

/-- Failed and queued deployments older than thirty days. -/
def expired (now : Nat) (d : Deployment) : Bool :=
  (d.status = .failed || d.status = .queued) && d.createdAt + 30 * 86400000 < now

structure CleanupReport where
  (deploymentsPruned imagesRemoved : Nat)
  errors : List JsString

structure Cleanup where
  applications : List Application
  site : Site
  report : CleanupReport

/-- One application of a cleanup; a failure is noted and the next one follows. -/
def cleanupApp (answers : Answers) (registry : Option Registry) (c : Cleanup)
    (app : Application) : Cleanup :=
  let (app', site, counts) := pruneApp answers registry app c.site
  { applications := c.applications ++ [app']
    site := site
    report := match counts with
      | some (deployments, images) =>
        { c.report with deploymentsPruned := c.report.deploymentsPruned + deployments
                        imagesRemoved := c.report.imagesRemoved + images }
      | none => { c.report with errors := c.report.errors ++ [app.id] } }

/-- A cleanup: the images of every application, then the rows of old failures. -/
def cleanup (answers : Answers) (registry : Option Registry) (now : Nat)
    (apps : List Application) (site : Site) : Cleanup :=
  let c := apps.foldl (cleanupApp answers registry) ⟨[], site, ⟨0, 0, []⟩⟩
  if answers.deletesRows then
    { c with applications := c.applications.map fun app =>
        { app with deployments := app.deployments.filter (!expired now ·) } }
  else c

/-! ## What a run removes -/

/-- The image of a prunable deployment that no other row of the application names. -/
def Discarded (app : Application) (ref : JsString) : Prop :=
  (∃ id, (id, ref) ∈ prunableDeployments app) ∧
    stillUsed app.oldIds app.deployments ref = false

/-- The tag is looked up to delete its manifest. -/
def DiscardsTag (registry : Option Registry) (app : Application) (k : JsString × JsString) : Prop :=
  ∃ r, registryFor registry app = some r ∧
    ∃ ref, Discarded app ref ∧ inRegistry r ref = true ∧ repoTag r ref = k

/-- Every call succeeds. -/
structure Answers.Fine (answers : Answers) : Prop where
  opened : ∀ id, answers.opened id = true
  deletes : ∀ id, answers.deletes id = true
  reads : ∀ id, answers.reads id = true
  writes : ∀ id, answers.writes id = true

/-- Only rows that are pruned are cleared, and those are not asked for. -/
theorem stillUsed_clearImage {oldIds : List JsString} {id : JsString} (hid : id ∈ oldIds)
    (rows : List Deployment) (ref : JsString) :
    stillUsed oldIds (clearImage id rows) ref = stillUsed oldIds rows ref := by
  unfold stillUsed clearImage
  rw [any_map]
  congr 1
  funext d
  by_cases hd : d.id = id
  · have hmem : oldIds.contains d.id = true := contains_iff_mem.mpr (hd ▸ hid)
    simp only [Function.comp_apply, hd, if_true]
    rw [← hd, hmem]
    simp
  · simp [hd]

/-- The rows that are kept name the same images as when the loop began. -/
def Pruning.SameUse (p : Pruning) (app : Application) : Prop :=
  ∀ ref, stillUsed app.oldIds p.deployments ref = stillUsed app.oldIds app.deployments ref

theorem Pruning.SameUse.clearImage {p : Pruning} {app : Application} (h : p.SameUse app)
    {id ref : JsString} (hmem : (id, ref) ∈ prunableDeployments app) :
    Pruning.SameUse { p with deployments := Retention.clearImage id p.deployments } app := by
  intro ref'
  have hid : id ∈ app.oldIds := mem_map.mpr ⟨_, hmem, rfl⟩
  exact (stillUsed_clearImage hid _ ref').trans (h ref')

def Site.After (site site' : Site) (ks : List (JsString × JsString)) : Prop :=
  site'.tags = ks.foldl (Contents.removeBy Prod.fst) site.tags

section Loop
variable {answers : Answers} {registry : Option Registry} {app : Application}

/-- One discarded image: at most its own tag is looked up, and it is when the registry
answers. -/
theorem discard_after {p : Pruning} {id ref : JsString} (href : Discarded app ref) :
    ∃ ks, (∀ k ∈ ks, DiscardsTag registry app k) ∧
      p.site.After (discard answers registry app p id ref).site ks ∧
      (answers.Fine → ∀ r, registryFor registry app = some r → inRegistry r ref = true →
        repoTag r ref ∈ ks) := by
  have huntag : (if answers.untags id then removeImage p.site app.serverId ref else p.site).tags =
      p.site.tags := by
    split <;> rfl
  rcases hr : registryFor registry app with _ | r
  · refine ⟨[], by simp, ?_, by simp⟩
    simp [Site.After, discard, hr, huntag]
  · by_cases hdel : (inRegistry r ref && answers.deletes id) = true
    · refine ⟨[repoTag r ref], ?_, ?_, ?_⟩
      · intro k hk
        rw [mem_singleton] at hk
        exact ⟨r, hr, ref, href, (Bool.and_eq_true_iff.mp hdel).1, hk.symm⟩
      · simp only [Site.After, discard, hr, hdel, if_true]
        rw [deleteRef_tags, huntag]
        rfl
      · intro _ r' hr' _
        cases hr'
        exact mem_singleton_self _
    · refine ⟨[], by simp, ?_, ?_⟩
      · simp [Site.After, discard, hr, hdel, huntag]
      · intro fine r' hr' hin
        cases hr'
        exact absurd (by rw [hin, fine.deletes]; rfl) hdel

/-- The same of an image that may still be in use. -/
theorem discardUnused_after {p : Pruning} {id ref : JsString}
    (hmem : (id, ref) ∈ prunableDeployments app)
    (hrows : p.SameUse app) :
    ∃ ks, (∀ k ∈ ks, DiscardsTag registry app k) ∧
      p.site.After (discardUnused answers registry app app.oldIds p id ref).site ks ∧
      (answers.Fine → ∀ r, registryFor registry app = some r → Discarded app ref →
        inRegistry r ref = true → repoTag r ref ∈ ks) := by
  unfold discardUnused
  split <;> rename_i hused
  · refine ⟨[], by simp, rfl, fun _ r _ hd => ?_⟩
    rw [hrows, hd.2] at hused
    cases hused
  · have href : Discarded app ref := ⟨⟨id, hmem⟩, hrows ref ▸ Bool.eq_false_iff.mpr hused⟩
    obtain ⟨ks, hsound, hafter, hall⟩ := @discard_after answers registry app p id ref href
    exact ⟨ks, hsound, hafter, fun fine r hr _ hin => hall fine r hr hin⟩

theorem Pruning.SameUse.discardUnused {p : Pruning} (h : p.SameUse app) (id ref : JsString) :
    (Retention.discardUnused answers registry app app.oldIds p id ref).SameUse app := by
  unfold Retention.discardUnused
  split
  · exact h
  · exact h

theorem mem_removed_discardUnused {oldIds : List JsString} {p : Pruning} {id ref x : JsString}
    (h : x ∈ (discardUnused answers registry app oldIds p id ref).removed) :
    x = ref ∨ x ∈ p.removed := by
  unfold discardUnused at h
  split at h
  · exact .inr h
  · exact mem_cons.mp h

/-- The loop looks up only tags of discarded images, and all of them when every call
succeeds, apart from those it has dealt with already. -/
theorem pruneLoop_after {old : List (JsString × JsString)} {p : Pruning}
    (hold : ∀ e ∈ old, e ∈ prunableDeployments app)
    (hrows : p.SameUse app) :
    ∃ ks, (∀ k ∈ ks, DiscardsTag registry app k) ∧
      p.site.After (pruneLoop answers registry app app.oldIds old p).1.site ks ∧
      (answers.Fine → ∀ r, registryFor registry app = some r → ∀ e ∈ old, Discarded app e.2 →
        inRegistry r e.2 = true → e.2 ∉ p.removed → repoTag r e.2 ∈ ks) := by
  induction old generalizing p with
  | nil => exact ⟨[], by simp, rfl, by simp⟩
  | cons e old ih =>
    obtain ⟨id, ref⟩ := e
    have hmem := hold (id, ref) mem_cons_self
    have hrest : ∀ e ∈ old, e ∈ prunableDeployments app := fun e he =>
      hold e (mem_cons_of_mem _ he)
    unfold pruneLoop
    split
    · rename_i hremoved
      split
      · obtain ⟨ks, hsound, hafter, hall⟩ := ih hrest (hrows.clearImage hmem)
        refine ⟨ks, hsound, hafter, fun fine r hr e he hd hin hnot => ?_⟩
        rcases mem_cons.mp he with rfl | he
        · exact absurd (contains_iff_mem.mp hremoved) hnot
        · exact hall fine r hr e he hd hin hnot
      · rename_i hwrite
        exact ⟨[], by simp, rfl, fun fine => absurd (fine.writes id) hwrite⟩
    · split
      · rename_i hread
        exact ⟨[], by simp, rfl, fun fine => absurd (fine.reads id) (by simpa using hread)⟩
      · obtain ⟨ks, hsound, hafter, hthis⟩ := @discardUnused_after answers registry
          app p id ref hmem hrows
        simp only
        split
        · rename_i hwrite
          obtain ⟨ks', hsound', hafter', hall⟩ :=
            ih hrest ((hrows.discardUnused id ref).clearImage hmem)
          refine ⟨ks ++ ks', ?_, ?_, fun fine r hr e he hd hin hnot => ?_⟩
          · intro k hk
            exact (mem_append.mp hk).elim (hsound k) (hsound' k)
          · unfold Site.After at hafter hafter' ⊢
            rw [foldl_append, ← hafter]
            exact hafter'
          · -- A later deployment with the same image has been dealt with here.
            by_cases hsame : e.2 = ref
            · rw [hsame] at hd hin ⊢
              exact mem_append_left _ (hthis fine r hr hd hin)
            · rcases mem_cons.mp he with rfl | he
              · exact absurd rfl hsame
              · refine mem_append_right _ (hall fine r hr e he hd hin fun hx => ?_)
                exact (mem_removed_discardUnused hx).elim hsame hnot
        · rename_i hwrite
          exact ⟨ks, hsound, hafter, fun fine => absurd (fine.writes id) hwrite⟩

theorem pruneApp_after (site : Site) : ∃ ks, (∀ k ∈ ks, DiscardsTag registry app k) ∧
      site.After (pruneApp answers registry app site).2.1 ks ∧
      (answers.Fine → ∀ k, DiscardsTag registry app k → k ∈ ks) := by
  obtain ⟨ks, hsound, hafter, hall⟩ := @pruneLoop_after answers registry app
    (prunableDeployments app) ⟨app.deployments, site, []⟩ (fun _ he => he) (fun _ => rfl)
  have hdiscarded : answers.Fine → ∀ k, DiscardsTag registry app k → k ∈ ks := by
    rintro fine k ⟨r, hr, ref, ⟨⟨id, hid⟩, hunused⟩, hin, rfl⟩
    exact hall fine r hr (id, ref) hid ⟨⟨id, hid⟩, hunused⟩ hin not_mem_nil
  unfold pruneApp
  simp only
  split
  · rename_i hnone
    refine ⟨[], by simp, rfl, ?_⟩
    rintro _ k ⟨r, _, ref, ⟨⟨id, hid⟩, -⟩, -⟩
    rw [hnone] at hid
    cases hid
  · split
    · rename_i hclosed
      exact ⟨[], by simp, rfl, fun fine => absurd (fine.opened app.id) (by simpa using hclosed)⟩
    · exact ⟨ks, hsound, hafter, hdiscarded⟩

end Loop

/-- **A run looks up only tags of discarded images, and all of them when every call
succeeds.** -/
theorem cleanup_tags (answers : Answers) (registry : Option Registry) (now : Nat)
    (apps : List Application) (site : Site) :
    ∃ ks, (∀ k ∈ ks, ∃ app ∈ apps, DiscardsTag registry app k) ∧
      site.After (cleanup answers registry now apps site).site ks ∧
      (answers.Fine → ∀ app ∈ apps, ∀ k, DiscardsTag registry app k → k ∈ ks) := by
  have hfold : ∀ c : Cleanup, ∃ ks, (∀ k ∈ ks, ∃ app ∈ apps, DiscardsTag registry app k) ∧
      c.site.After (apps.foldl (cleanupApp answers registry) c).site ks ∧
      (answers.Fine → ∀ app ∈ apps, ∀ k, DiscardsTag registry app k → k ∈ ks) := by
    induction apps with
    | nil => exact fun c => ⟨[], by simp, rfl, by simp⟩
    | cons app apps ih =>
      intro c
      obtain ⟨ks, hsound, hafter, hall⟩ := @pruneApp_after answers registry app c.site
      obtain ⟨ks', hsound', hafter', hall'⟩ := ih (cleanupApp answers registry c app)
      refine ⟨ks ++ ks', ?_, ?_, ?_⟩
      · intro k hk
        rcases mem_append.mp hk with hk | hk
        · exact ⟨app, mem_cons_self, hsound k hk⟩
        · obtain ⟨a, ha, hd⟩ := hsound' k hk
          exact ⟨a, mem_cons_of_mem _ ha, hd⟩
      · unfold Site.After at hafter hafter' ⊢
        rw [foldl_append, ← hafter]
        exact hafter'
      · intro fine a ha k hk
        rcases mem_cons.mp ha with rfl | ha
        · exact mem_append_left _ (hall fine k hk)
        · exact mem_append_right _ (hall' fine a ha k hk)
  obtain ⟨ks, hsound, hafter, hall⟩ := hfold ⟨[], site, ⟨0, 0, []⟩⟩
  refine ⟨ks, hsound, ?_, hall⟩
  unfold cleanup
  simp only
  split <;> exact hafter

/-! ## What is kept -/

/-- The current image of an application, or the image of a deployment that is neither
pruned nor, as an old failure, deleted. -/
def Kept (now : Nat) (app : Application) (ref : JsString) : Prop :=
  app.currentImage = some ref ∨
    ∃ d ∈ app.deployments, d.imageRef = some ref ∧ d.id ∉ app.oldIds ∧ expired now d = false

/-- Every kept image that could be pulled before the run can be pulled after it. -/
def ImagesKept (answers : Answers) (registry : Option Registry) (now : Nat)
    (apps : List Application) (site : Site) : Prop :=
  ∀ r ∈ registry, ∀ app ∈ apps, ∀ ref, Kept now app ref →
    site.Pulls r ref → (cleanup answers registry now apps site).site.Pulls r ref

/-- No image that is discarded has, in its repository, the digest of one that is kept. -/
def ManifestsApart (registry : Option Registry) (now : Nat) (apps : List Application)
    (site : Site) : Prop :=
  ∀ r ∈ registry, ∀ app ∈ apps, app.serverId = none →
    ∀ ref, Discarded app ref → inRegistry r ref = true →
    ∀ app' ∈ apps, ∀ ref', Kept now app' ref' → ∀ k, pulledTag r ref' = some k →
      ¬ Contents.Shares Prod.fst site.tags (repoTag r ref) k

/-- **What is kept survives every run exactly when nothing discarded shares its
manifest.** -/
theorem images_kept_iff (registry : Option Registry) (now : Nat) (apps : List Application)
    (site : Site) : (∀ answers, ImagesKept answers registry now apps site) ↔
      ManifestsApart registry now apps site := by
  constructor
  · intro h r hr app happ hserver ref hd hin app' happ' ref' hkept k hk hshares
    -- The run in which every call succeeds deletes the manifest they share.
    obtain ⟨ks, -, hafter, hall⟩ := cleanup_tags ⟨fun _ => true, fun _ => true, fun _ => true,
      fun _ => true, fun _ => true, true⟩ registry now apps site
    have hpulls : site.Pulls r ref' := ⟨k, hk, hshares.2.1 ▸ hshares.2.2⟩
    obtain ⟨k', hk', hne⟩ := h _ r hr app' happ' ref' hkept hpulls
    obtain rfl : k = k' := Option.some.inj (hk.symm.trans hk')
    obtain ⟨b, hb⟩ := Option.ne_none_iff_exists'.mp hne
    rw [hafter] at hb
    have hfor : registryFor registry app = some r := by
      simpa [registryFor, hserver] using hr
    refine (Contents.foldl_removeBy.mp hb).2 _ ?_ hshares
    exact hall ⟨fun _ => rfl, fun _ => rfl, fun _ => rfl, fun _ => rfl⟩ app happ _
      ⟨r, hfor, ref, hd, hin, rfl⟩
  · rintro h answers r hr app happ ref hkept ⟨k, hk, hne⟩
    obtain ⟨ks, hsound, hafter, -⟩ := cleanup_tags answers registry now apps site
    obtain ⟨b, hb⟩ := Option.ne_none_iff_exists'.mp hne
    have hleft : ∀ k' ∈ ks, ¬ Contents.Shares Prod.fst site.tags k' k := by
      intro k' hk'
      obtain ⟨app', happ', r', hr', ref', hd, hin, rfl⟩ := hsound k' hk'
      unfold registryFor at hr'
      split at hr'
      · cases hr'
      · rename_i hserver
        obtain rfl : r' = r := Option.some.inj (hr'.symm.trans hr)
        exact h r' hr app' happ' (by simpa using hserver) ref' hd hin app happ ref hkept k hk
    refine ⟨k, hk, ?_⟩
    rw [hafter, Contents.foldl_removeBy.mpr ⟨hb, hleft⟩]
    exact Option.some_ne_none b

/-! ## By tag and by digest -/

section Daemon
variable {answers : Answers} {registry : Option Registry} {app : Application}
  {image : Option JsString × JsString}

end Daemon

/-! ## A rebuild that gave the same image -/

def localRegistry : Registry := ⟨js "localhost:5000"⟩

def shopRef (tag : String) : JsString := js "localhost:5000/web/shop:" ++ js tag

/-- Three deployments; the newest is current and one more is kept. -/
def rebuiltShop : Application where
  id := js "shop"
  serverId := none
  currentImage := some (shopRef "3")
  deploymentKeep := 1
  deployments := [⟨js "d3", .success, some (shopRef "3"), 3⟩,
    ⟨js "d2", .success, some (shopRef "2"), 2⟩, ⟨js "d1", .success, some (shopRef "1"), 1⟩]

/-- The third build gave the image of the first. -/
def rebuiltSite : Site where
  images := []
  tags k :=
    if k = (js "web/shop", js "1") ∨ k = (js "web/shop", js "3") then some (js "sha256:aa")
    else if k = (js "web/shop", js "2") then some (js "sha256:bb") else none

/-- Pruning the first deployment deletes the manifest the current image is pulled by. -/
theorem current_image_deleted :
    ¬ ∀ answers registry now apps site, ImagesKept answers registry now apps site := by
  intro h
  have hpulls : rebuiltSite.Pulls localRegistry (shopRef "3") :=
    ⟨(js "web/shop", js "3"), by decide, by decide⟩
  obtain ⟨k, hk, hne⟩ := h ⟨fun _ => true, fun _ => true, fun _ => true, fun _ => true,
    fun _ => true, true⟩ (some localRegistry) 4 [rebuiltShop] rebuiltSite localRegistry rfl
    rebuiltShop List.mem_cons_self (shopRef "3") (.inl rfl) hpulls
  have hkey : pulledTag localRegistry (shopRef "3") = some (js "web/shop", js "3") := by decide
  obtain rfl : (js "web/shop", js "3") = k := Option.some.inj (hkey.symm.trans hk)
  exact hne (by decide)

end Aoox.Retention
