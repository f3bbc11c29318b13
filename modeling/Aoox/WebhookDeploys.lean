import Aoox.JsString

/-! # Deployments that pushes trigger

A webhook is called for every push, and deploys only what concerns it: a push to the branch that is
configured, and for an application that watches its root directory a push that touches it.  Whether
the push deletes the branch is read off `deleted`, which GitHub sends and GitLab does not.  Both say
it by the commit behind the push, which is all zeros.
-/
namespace Aoox.Webhooks
open JsString Option

/-! ## Payloads -/

/-- A commit of a push; a list the provider leaves out is `none`. -/
structure PushedCommit where
  message : Option JsString
  (added modified removed : Option (List JsString))

/-- `pull_request` of GitHub. -/
structure PullRequest where
  (title htmlUrl headRef headSha headRepo baseRepo : Option JsString)

/-- `object_attributes` of a merge request of GitLab. -/
structure MergeRequest where
  action : Option JsString
  iid : Option Nat
  (title url sourceBranch lastCommit : Option JsString)
  (sourceProjectId targetProjectId : Option Nat)

/-- What either provider sends, as far as it is looked at; a flag that is left out is `false`. -/
structure PushPayload where
  ref : Option JsString := none
  objectKind : Option JsString := none
  deleted : Bool := false
  created : Bool := false
  forced : Bool := false
  after : Option JsString := none
  headCommitId : Option JsString := none
  headCommitMessage : Option JsString := none
  pusherName : Option JsString := none
  checkoutSha : Option JsString := none
  totalCommitsCount : Option Nat := none
  commits : Option (List PushedCommit) := none
  userName : Option JsString := none
  action : Option JsString := none
  number : Option Nat := none
  pullRequest : Option PullRequest := none
  objectAttributes : Option MergeRequest := none

def given (text : Option JsString) : Option JsString := text.filter (· ≠ [])

def PushedCommit.files (c : PushedCommit) : List JsString :=
  c.added.getD [] ++ c.modified.getD [] ++ c.removed.getD []

/-- Whether a commit touches `root`, or does not show that it does not. -/
def PushedCommit.mayTouch (root : JsString) (c : PushedCommit) : Bool :=
  c.added.isNone || c.modified.isNone || c.removed.isNone || c.files = [] ||
    c.files.any fun f => f = root || startsWith f (root ++ js "/")

/-- Both providers cap `commits` at this many. -/
def PAYLOAD_COMMIT_CAP : Nat := 20

def pushTouchesRoot (payload : PushPayload) (root : Option JsString) : Bool :=
  match given root, payload.commits with
  | some root, some commits =>
    commits = [] || PAYLOAD_COMMIT_CAP ≤ commits.length ||
      payload.totalCommitsCount.any (commits.length < ·) || payload.forced || payload.created ||
      commits.any (·.mayTouch root)
  | _, _ => true

structure PushCommitInfo where
  (sha message pusherName : Option JsString)

def COMMIT_MESSAGE_MAX : Nat := 200

def parsePushCommit (payload : PushPayload) : PushCommitInfo where
  sha := payload.after.or payload.checkoutSha
  message :=
    (given (payload.headCommitMessage.or
      (payload.commits.bind fun commits => commits.getLast?.bind (·.message)))).map
      fun raw => ((split raw (js "\n")).headD []).take COMMIT_MESSAGE_MAX
  pusherName := payload.pusherName.or payload.userName

inductive Kind where
  | update
  | close
  deriving DecidableEq

structure PullRequestEvent where
  kind : Kind
  number : Nat
  (title branch : JsString)
  (sha url : Option JsString)
  fromFork : Bool

def kindOf (updates closes : List JsString) (action : JsString) : Option Kind :=
  if action ∈ updates then some .update else if action ∈ closes then some .close else none

def parsePullRequest (payload : PushPayload) (event : Option JsString) : Option PullRequestEvent :=
  match if event = some (js "pull_request") then payload.pullRequest else none with
  | some pr => do
    let kind ← kindOf [js "opened", js "synchronize", js "reopened"] [js "closed"]
      (payload.action.getD [])
    let number ← payload.number.filter (· ≠ 0)
    let branch ← given pr.headRef
    return ⟨kind, number, pr.title.getD (js "PR #" ++ js (toString number)), branch, pr.headSha,
      pr.htmlUrl, (given pr.headRepo).isSome && pr.headRepo ≠ pr.baseRepo⟩
  | none =>
    match if payload.objectKind = some (js "merge_request") then payload.objectAttributes
      else none with
    | some mr => do
      let kind ← kindOf [js "open", js "update", js "reopen"] [js "close", js "merge"]
        (mr.action.getD [])
      let number ← mr.iid.filter (· ≠ 0)
      let branch ← given mr.sourceBranch
      return ⟨kind, number, mr.title.getD (js "MR !" ++ js (toString number)), branch,
        mr.lastCommit, mr.url, mr.sourceProjectId.isSome && mr.targetProjectId.isSome &&
          mr.sourceProjectId ≠ mr.targetProjectId⟩
    | none => none

def isPush (payload : PushPayload) (event : Option JsString) : Bool :=
  match given event with
  | none => true
  | some event => event = js "push" || includes (toLowerCase event) (js "push") ||
      payload.objectKind = some (js "push")

/-! ## Deliveries -/

/-- How a delivery proves itself: its signature under a secret, and the address it comes from. -/
structure WebhookAuth where
  signed : JsString → Bool
  (isGithub verifyGithubIp : Bool)
  ranges : List JsString
  inRanges : List JsString → Bool

/-- Why a delivery is refused. -/
def WebhookAuth.refusal (auth : WebhookAuth) (secret : Option JsString) : Option JsString :=
  match given secret with
  | none => none
  | some secret =>
    if !auth.signed secret then some (js "Invalid webhook signature")
    else if auth.isGithub && auth.verifyGithubIp && auth.ranges ≠ [] && !auth.inRanges auth.ranges
    then some (js "Source address is not in GitHub's published webhook ranges")
    else none

inductive WebhookResult where
  | ignored (reason : JsString)
  | previewClosed (previewId : Option JsString)
  | preview (previewId : JsString)
  | queued (deploymentId : JsString)
  | busy (reason : JsString)
  | notFound
  | unauthorized (reason : JsString)
  | failed (reason : JsString)

def expectedRef (branch : JsString) : JsString := js "refs/heads/" ++ branch

def otherRef (payload : PushPayload) (branch : JsString) : Option JsString :=
  (given payload.ref).filter (· ≠ expectedRef branch)

def ignoredRef (ref branch : JsString) : WebhookResult :=
  .ignored (js "ref " ++ ref ++ js " != " ++ expectedRef branch)

def ignoredEvent (event : Option JsString) : WebhookResult :=
  .ignored (js "event " ++ event.getD (js "unknown"))

inductive SourceType where
  | git
  | image
  deriving DecidableEq

structure Application where
  webhookToken : JsString
  webhookSecret : Option JsString
  sourceType : SourceType
  gitBranch : JsString
  rootDirectory : Option JsString
  (watchRootOnly previewsEnabled : Bool)

/-- The services an application's webhook calls. -/
structure AppServices where
  lookup : JsString → Option Application
  findByPr : Nat → Option JsString
  upsert : PullRequestEvent → Option JsString
  queue : PushCommitInfo → Except JsString JsString

def AppServices.pullRequest (svc : AppServices) (app : Application) (pr : PullRequestEvent) :
    WebhookResult :=
  if !app.previewsEnabled then .ignored (js "previews disabled")
  else if pr.kind = .close then .previewClosed (svc.findByPr pr.number)
  else if pr.fromFork then .ignored (js "fork")
  else
    match svc.upsert pr with
    | none => .ignored (js "preview limit")
    | some id => .preview id

/-- What becomes of a push once it is known to be none of a pull request. -/
def AppServices.push (svc : AppServices) (app : Application) (payload : PushPayload)
    (event : Option JsString) : WebhookResult :=
  if !isPush payload event then ignoredEvent event
  else if payload.deleted then .ignored (js "branch deleted")
  else
    match if app.sourceType = .image then none else otherRef payload app.gitBranch with
    | some ref => ignoredRef ref app.gitBranch
    | none =>
      if app.sourceType ≠ .image && app.watchRootOnly && !pushTouchesRoot payload app.rootDirectory
      then .ignored (js "no changes under " ++ app.rootDirectory.getD (js "null"))
      else
        match svc.queue (parsePushCommit payload) with
        | .ok id => .queued id
        | .error message => .busy message

def AppServices.execute (svc : AppServices) (token : JsString) (payload : PushPayload)
    (event : Option JsString) (auth : WebhookAuth) : WebhookResult :=
  match (svc.lookup token).filter (·.webhookToken = token) with
  | none => .notFound
  | some app =>
    match auth.refusal app.webhookSecret with
    | some reason => .unauthorized reason
    | none =>
      match parsePullRequest payload event with
      | some pr => svc.pullRequest app pr
      | none => svc.push app payload event

structure Stack where
  webhookToken : JsString
  webhookSecret : Option JsString
  /-- The compose file is in a repository, and not in the database. -/
  fromGit : Bool
  gitBranch : JsString

structure StackServices where
  lookup : JsString → Option Stack
  isActive : Stack → Bool
  queue : Option JsString → Except JsString JsString

def StackServices.push (svc : StackServices) (app : Stack) (payload : PushPayload)
    (event : Option JsString) : WebhookResult :=
  if !app.fromGit then .ignored (js "template stack")
  else if !isPush payload event then ignoredEvent event
  else if payload.deleted then .ignored (js "branch deleted")
  else
    match otherRef payload app.gitBranch with
    | some ref => ignoredRef ref app.gitBranch
    | none =>
      if svc.isActive app then .busy (js "a compose action is still running")
      else
        match svc.queue (payload.headCommitId.or (payload.after.or payload.checkoutSha)) with
        | .ok id => .queued id
        | .error message => .failed message

def StackServices.execute (svc : StackServices) (token : JsString) (payload : PushPayload)
    (event : Option JsString) (auth : WebhookAuth) : WebhookResult :=
  match (svc.lookup token).filter (·.webhookToken = token) with
  | none => .notFound
  | some app =>
    match auth.refusal app.webhookSecret with
    | some reason => .unauthorized reason
    | none => svc.push app payload event

/-! ## Paths under the root -/

/-- The path names `root` or something below it, segment by segment. -/
def Inside (root path : JsString) : Prop := split root (js "/") <+: split path (js "/")

theorem Inside.eq_or_startsWith {root path : JsString} (h : Inside root path) :
    path = root ∨ startsWith path (root ++ js "/") = true := by
  obtain ⟨rest, hrest⟩ := h
  have hpath : join (split path (js "/")) (js "/") = path := join_split_unit (cu '/') path
  cases rest with
  | nil =>
    rw [List.append_nil] at hrest
    rw [← hrest] at hpath
    exact .inl (hpath.symm.trans (join_split_unit (cu '/') root))
  | cons piece pieces =>
    have hpieces : ∀ p ∈ piece :: pieces, cu '/' ∉ p := fun p hp =>
      not_mem_of_mem_splitGo (hrest ▸ List.mem_append_right _ hp : p ∈ split path (js "/"))
    have hsplit : split (root ++ cu '/' :: join (piece :: pieces) [cu '/']) [cu '/'] =
        split path [cu '/'] := by
      rw [split_append_unit, split_join_unit (List.cons_ne_nil _ _) hpieces]
      exact hrest
    have hjoin := congrArg (join · [cu '/']) hsplit
    simp only [join_split_unit] at hjoin
    refine .inr (decide_eq_true ⟨join (piece :: pieces) [cu '/'], ?_⟩)
    rw [← hjoin, List.append_assoc]
    rfl

/-- The payload shows that the push changed files, and none of them under the root. -/
def ShowsOutside (payload : PushPayload) (root : Option JsString) : Prop :=
  ∃ dir commits, root = some dir ∧ payload.commits = some commits ∧
    (∃ c ∈ commits, c.files ≠ []) ∧ ∀ c ∈ commits, ∀ path ∈ c.files, ¬ Inside dir path

theorem not_mayTouch {root : JsString} {c : PushedCommit} (h : c.mayTouch root = false) :
    c.files ≠ [] ∧ ∀ path ∈ c.files, ¬ Inside root path := by
  simp only [PushedCommit.mayTouch, Bool.or_eq_false_iff, decide_eq_false_iff_not,
    List.any_eq_false, Bool.or_eq_true, decide_eq_true_eq] at h
  exact ⟨h.1.2, fun path hpath hinside => h.2 path hpath hinside.eq_or_startsWith⟩

variable {payload : PushPayload}

/-- **A push that is skipped shows it.** -/
theorem showsOutside_of_skipped {root : Option JsString}
    (h : pushTouchesRoot payload root = false) : ShowsOutside payload root := by
  rw [pushTouchesRoot] at h
  split at h
  · next dir commits hroot hcommits =>
    simp only [Bool.or_eq_false_iff, decide_eq_false_iff_not, List.any_eq_false,
      Bool.not_eq_true] at h
    obtain ⟨⟨⟨⟨⟨hne, -⟩, -⟩, -⟩, -⟩, hall⟩ := h
    obtain ⟨c, cs, rfl⟩ := List.exists_cons_of_ne_nil hne
    exact ⟨dir, _, (filter_eq_some_iff.mp hroot).1, hcommits,
      ⟨c, List.mem_cons_self, (not_mayTouch (hall c List.mem_cons_self)).1⟩,
      fun x hx => (not_mayTouch (hall x hx)).2⟩
  · cases h

/-! ## Deleted branches -/

/-- The commit behind the push is all zeros: there is no branch any more. -/
def deletesBranch (payload : PushPayload) : Bool :=
  payload.after.any fun sha => sha ≠ [] && sha.all (· == cu '0')

def WebhookResult.isQueued : WebhookResult → Bool
  | .queued _ => true
  | _ => false

/-- The push concerns other code than what the application is built from. -/
def Application.Elsewhere (app : Application) (payload : PushPayload) : Prop :=
  app.sourceType = .git ∧ ((otherRef payload app.gitBranch).isSome ∨
    app.watchRootOnly ∧ pushTouchesRoot payload app.rootDirectory = false)

variable {event : Option JsString}

theorem AppServices.isQueued_push {svc : AppServices} {app : Application} :
    (svc.push app payload event).isQueued = true ↔ isPush payload event = true ∧
      payload.deleted = false ∧ ¬ app.Elsewhere payload ∧
      ∃ id, svc.queue (parsePushCommit payload) = .ok id := by
  rw [AppServices.push, Application.Elsewhere]
  cases isPush payload event with
  | false => simp [ignoredEvent, WebhookResult.isQueued]
  | true =>
    cases payload.deleted with
    | true => simp [WebhookResult.isQueued]
    | false =>
      have hqueue : (match svc.queue (parsePushCommit payload) with
          | .ok id => WebhookResult.queued id
          | .error message => .busy message).isQueued = true ↔
          ∃ id, svc.queue (parsePushCommit payload) = .ok id := by
        cases svc.queue (parsePushCommit payload) <;> simp [WebhookResult.isQueued]
      cases app.sourceType with
      | image => simpa using hqueue
      | git =>
        cases otherRef payload app.gitBranch with
        | some ref => simp [ignoredRef, WebhookResult.isQueued]
        | none =>
          cases app.watchRootOnly <;> cases pushTouchesRoot payload app.rootDirectory <;>
            simp [WebhookResult.isQueued] at hqueue ⊢ <;> exact hqueue

variable {svc : StackServices}

theorem StackServices.isQueued_push {app : Stack} :
    (svc.push app payload event).isQueued = true ↔ app.fromGit = true ∧
      isPush payload event = true ∧ payload.deleted = false ∧
      otherRef payload app.gitBranch = none ∧ svc.isActive app = false ∧
      ∃ id, svc.queue (payload.headCommitId.or (payload.after.or payload.checkoutSha)) =
        .ok id := by
  rw [StackServices.push]
  cases app.fromGit <;> cases isPush payload event <;> cases payload.deleted <;>
    cases otherRef payload app.gitBranch <;> cases svc.isActive app <;>
    cases svc.queue (payload.headCommitId.or (payload.after.or payload.checkoutSha)) <;>
    simp [ignoredEvent, ignoredRef, WebhookResult.isQueued]

variable {token : JsString} {auth : WebhookAuth}

theorem AppServices.isQueued_execute {svc : AppServices} :
    (svc.execute token payload event auth).isQueued = true ↔
      ∃ app, svc.lookup token = some app ∧ app.webhookToken = token ∧
        auth.refusal app.webhookSecret = none ∧ parsePullRequest payload event = none ∧
        (svc.push app payload event).isQueued = true := by
  rw [AppServices.execute]
  cases hrow : svc.lookup token with
  | none => simp [WebhookResult.isQueued]
  | some app =>
    by_cases htoken : app.webhookToken = token
    · have hfound : (some app).filter (·.webhookToken = token) = some app :=
        filter_some_pos (decide_eq_true htoken)
      rw [hfound]
      cases hrefusal : auth.refusal app.webhookSecret with
      | some reason => simp [hrefusal, WebhookResult.isQueued]
      | none =>
        cases parsePullRequest payload event with
        | none => simp [hrefusal, htoken]
        | some pr =>
          have hpreview : (svc.pullRequest app pr).isQueued = false := by
            rw [AppServices.pullRequest]
            repeat' split
            all_goals rfl
          simp [hrefusal, hpreview]
    · simp [filter_some_neg, htoken, WebhookResult.isQueued]

theorem StackServices.isQueued_execute : (svc.execute token payload event auth).isQueued = true ↔
      ∃ app, svc.lookup token = some app ∧ app.webhookToken = token ∧
        auth.refusal app.webhookSecret = none ∧ (svc.push app payload event).isQueued = true := by
  rw [StackServices.execute]
  cases hrow : svc.lookup token with
  | none => simp [WebhookResult.isQueued]
  | some app =>
    by_cases htoken : app.webhookToken = token
    · have hfound : (some app).filter (·.webhookToken = token) = some app :=
        filter_some_pos (decide_eq_true htoken)
      rw [hfound]
      cases hrefusal : auth.refusal app.webhookSecret <;>
        simp [hrefusal, htoken, WebhookResult.isQueued]
    · simp [filter_some_neg, htoken, WebhookResult.isQueued]

/-- A delivery that is never refused. -/
def trusted : WebhookAuth := ⟨fun _ => true, false, false, [], fun _ => true⟩

theorem refusal_trusted (secret : Option JsString) : trusted.refusal secret = none := by
  rw [WebhookAuth.refusal]
  split <;> rfl

/-- **When no deletion is deployed.**  Nothing but `deleted` tells a deletion from another push, so a
deletion without it stays away only where the push would have stayed away as well. -/
theorem no_deletion_deployed_iff (payload : PushPayload) (event : Option JsString) :
    (∀ app : Application,
      (∀ (svc : AppServices) (token : JsString) (auth : WebhookAuth), svc.lookup token = some app →
        (svc.execute token payload event auth).isQueued = true → deletesBranch payload = false) ↔
      deletesBranch payload = false ∨ payload.deleted = true ∨ isPush payload event = false ∨
        (parsePullRequest payload event).isSome = true ∨ app.Elsewhere payload) ∧
    (∀ app : Stack,
      (∀ (svc : StackServices) (token : JsString) (auth : WebhookAuth),
        svc.lookup token = some app →
        (svc.execute token payload event auth).isQueued = true → deletesBranch payload = false) ↔
      deletesBranch payload = false ∨ payload.deleted = true ∨ app.fromGit = false ∨
        isPush payload event = false ∨ (otherRef payload app.gitBranch).isSome = true) ∧
    ∀ root, pushTouchesRoot payload root = false → ShowsOutside payload root := by
  refine ⟨fun app => ⟨fun h => ?_, fun hcond svc token auth hrow hqueued => ?_⟩,
    fun app => ⟨fun h => ?_, fun hcond svc token auth hrow hqueued => ?_⟩,
    fun _ => showsOutside_of_skipped⟩
  · by_contra hcond
    simp only [not_or, Bool.not_eq_true, Bool.not_eq_false, Option.isSome_eq_false_iff,
      Option.isNone_iff_eq_none] at hcond
    obtain ⟨hdeletes, hdeleted, hpush, hpr, helsewhere⟩ := hcond
    have hkept := h ⟨fun _ => some app, fun _ => none, fun _ => none, fun _ => .ok []⟩
      app.webhookToken trusted rfl (AppServices.isQueued_execute.mpr ⟨app, rfl, rfl,
        refusal_trusted _, hpr, AppServices.isQueued_push.mpr
          ⟨hpush, hdeleted, helsewhere, [], rfl⟩⟩)
    exact absurd hkept (by rw [hdeletes]; decide)
  · obtain ⟨app', hrow', -, -, hpr, hpushed⟩ := AppServices.isQueued_execute.mp hqueued
    obtain rfl := Option.some.inj (hrow.symm.trans hrow')
    obtain ⟨hpush, hdeleted, helsewhere, -⟩ := AppServices.isQueued_push.mp hpushed
    rcases hcond with hkept | hflag | hnot | hsome | hother
    · exact hkept
    · exact absurd hflag (by rw [hdeleted]; decide)
    · exact absurd hpush (by rw [hnot]; decide)
    · exact absurd hsome (by rw [hpr]; decide)
    · exact absurd hother helsewhere
  · by_contra hcond
    simp only [not_or, Bool.not_eq_true, Bool.not_eq_false, Option.isSome_eq_false_iff,
      Option.isNone_iff_eq_none] at hcond
    obtain ⟨hdeletes, hdeleted, hgit, hpush, href⟩ := hcond
    have hkept := h ⟨fun _ => some app, fun _ => false, fun _ => .ok []⟩ app.webhookToken trusted
      rfl (StackServices.isQueued_execute.mpr ⟨app, rfl, rfl, refusal_trusted _,
        StackServices.isQueued_push.mpr ⟨hgit, hpush, hdeleted, href, rfl, [], rfl⟩⟩)
    exact absurd hkept (by rw [hdeletes]; decide)
  · obtain ⟨app', hrow', -, -, hpushed⟩ := StackServices.isQueued_execute.mp hqueued
    obtain rfl := Option.some.inj (hrow.symm.trans hrow')
    obtain ⟨hgit, hpush, hdeleted, href, -⟩ := StackServices.isQueued_push.mp hpushed
    rcases hcond with hkept | hflag | hnot | hnot | hsome
    · exact hkept
    · exact absurd hflag (by rw [hdeleted]; decide)
    · exact absurd hgit (by rw [hnot]; decide)
    · exact absurd hpush (by rw [hnot]; decide)
    · exact absurd hsome (by rw [href]; decide)

/-- GitLab's push that deletes `main`. -/
def mainDeleted : PushPayload where
  ref := some (js "refs/heads/main")
  objectKind := some (js "push")
  after := some (List.replicate 40 (cu '0'))
  commits := some []
  totalCommitsCount := some 0

theorem main_deleted_deployed :
    (¬ ∀ (svc : AppServices) (token : JsString) (payload : PushPayload) (event : Option JsString)
      (auth : WebhookAuth), (svc.execute token payload event auth).isQueued = true →
        deletesBranch payload = false) ∧
    ¬ ∀ (svc : StackServices) (token : JsString) (payload : PushPayload) (event : Option JsString)
      (auth : WebhookAuth), (svc.execute token payload event auth).isQueued = true →
        deletesBranch payload = false := by
  have hdeletes : deletesBranch mainDeleted ≠ false := by decide
  constructor
  · intro h
    refine hdeletes (h ⟨fun _ => some ⟨js "t", none, .git, js "main", none, false, false⟩,
      fun _ => none, fun _ => none, fun _ => .ok (js "d")⟩ (js "t") _ (some (js "Push Hook"))
      trusted ?_)
    decide
  · intro h
    refine hdeletes (h ⟨fun _ => some ⟨js "t", none, true, js "main"⟩, fun _ => false,
      fun _ => .ok (js "d")⟩ (js "t") _ (some (js "Push Hook")) trusted ?_)
    decide

end Aoox.Webhooks
