import Aoox.ImageReferences

/-! # Updates of the installation

A check compares the digests that the registry has with those of the last check or apply.  An apply
writes down the digests it is about to bring, and then has a helper container pull the images and
start the containers anew.  How that ends is not asked: `runComposeHelper` waits for the helper and
does not look at its exit status, and what it throws is logged.

So a check tells what is newer than what was last applied, whether or not that came to run.  It tells
what is newer than what runs when every apply replaced the containers or had nothing new, and only
then (`updates_told_iff`).
-/
namespace Aoox.InstanceUpdates
open JsString
open ImageReferences (parseImageRef)

/-! ## The service -/

/-- The settings of the installation. -/
structure Config where
  (apiImage webImage : JsString)
  installDir : Option JsString

/-- The row of `instance_update_state`. -/
structure Row where
  (apiDigest apiRef webDigest webRef : Option JsString)
  (checkedAt applyStartedAt : Option Nat)
  (applyFromVersion latestVersion : Option JsString)

def Row.fresh : Row := ⟨none, none, none, none, none, none, none, none⟩

inductive Tracking where
  | latest | pinned | unknown
  deriving DecidableEq

/-- What a request finds: the digests of the registry or why they could not be had, the process and
the newest version that was published. -/
structure World where
  (api web : Except JsString JsString)
  (now bootedAt : Nat)
  currentVersion : JsString
  tracking : Tracking
  (trackedTag newest : Option JsString)

structure Lookup where
  (digest error : Option JsString)

def tryRemoteDigest (imageRef : JsString) : Except JsString JsString → Lookup
  | .ok digest => ⟨some digest, none⟩
  | .error raw => ⟨none, some ((js "Could not look up " ++ imageRef ++ js ": " ++ raw).take 240)⟩

def BOOT_TOLERANCE_MS : Nat := 5000

def clearApplyingIfDone (row : Row) (w : World) : Row :=
  match row.applyStartedAt with
  | none => row
  | some startedAt =>
    if (row.applyFromVersion ≠ none ∧ row.applyFromVersion ≠ some w.currentVersion) ∨
        startedAt ≤ w.bootedAt + BOOT_TOLERANCE_MS then
      { row with applyStartedAt := none, applyFromVersion := none }
    else row

/-- The stored digest, only when it was taken for exactly this reference. -/
def baseline (digest ref : Option JsString) (image : JsString) : Option JsString :=
  if ref = some image then digest else none

structure ImageUpdateStatus where
  image : JsString
  (currentDigest remoteDigest : Option JsString)
  updateAvailable : Bool
  error : Option JsString

def imageStatus (image : JsString) (baseline : Option JsString) (lookup : Lookup) :
    ImageUpdateStatus where
  image := image
  currentDigest := baseline
  remoteDigest := lookup.digest
  updateAvailable := lookup.digest ≠ none && baseline ≠ none && baseline ≠ lookup.digest
  error := lookup.error

structure ApplyGuardInput where
  tracking : Tracking
  trackedTag : Option JsString
  checkedTag : JsString
  latestVersion : Option JsString
  digestChanged : Bool

def applyBlockReason (input : ApplyGuardInput) : Option JsString :=
  if input.tracking ≠ .pinned then none
  else if input.trackedTag = some input.checkedTag ∧ input.digestChanged = true then none
  else
    let tag := input.trackedTag.getD (js "a fixed tag")
    let latest := (input.latestVersion.map fun v =>
      js " (latest published version: " ++ v ++ js ")").getD []
    some (js "This install is pinned to " ++ tag ++
      js ", so pulling it again would not change the version" ++ latest ++ js ". " ++
      js "To upgrade, set API_IMAGE and WEB_IMAGE in .env.dist to the new tag (or remove both lines to " ++
      js "follow latest), then run `sudo aoox reinstall`.")

section
variable (cfg : Config)

def blockReason (w : World) (digestChanged : Bool) (latestVersion : Option JsString) :
    Option JsString :=
  applyBlockReason
    { tracking := w.tracking
      trackedTag := w.trackedTag
      checkedTag := (parseImageRef cfg.apiImage).tag
      latestVersion := latestVersion
      digestChanged := digestChanged }

structure InstanceUpdateStatus where
  currentVersion : JsString
  installDirConfigured : Bool
  (checkedAt applyStartedAt : Option Nat)
  (api web : ImageUpdateStatus)
  applyBlocked : Option JsString

def check (row : Row) (w : World) : Row × InstanceUpdateStatus :=
  let row := clearApplyingIfDone row w
  let apiLookup := tryRemoteDigest cfg.apiImage w.api
  let webLookup := tryRemoteDigest cfg.webImage w.web
  let apiBase := baseline row.apiDigest row.apiRef cfg.apiImage
  let webBase := baseline row.webDigest row.webRef cfg.webImage
  let api := imageStatus cfg.apiImage apiBase apiLookup
  let web := imageStatus cfg.webImage webBase webLookup
  let row :=
    if apiBase = none ∧ apiLookup.digest ≠ none then
      { row with apiDigest := apiLookup.digest, apiRef := some cfg.apiImage }
    else row
  let row :=
    if webBase = none ∧ webLookup.digest ≠ none then
      { row with webDigest := webLookup.digest, webRef := some cfg.webImage }
    else row
  -- the refresh of the version keeps what it had if the registry lists nothing
  let row := { row with checkedAt := some w.now, latestVersion := w.newest.or row.latestVersion }
  (row,
    { currentVersion := w.currentVersion
      installDirConfigured := cfg.installDir.isSome
      checkedAt := row.checkedAt
      applyStartedAt := row.applyStartedAt
      api := api
      web := web
      applyBlocked := blockReason cfg w (api.updateAvailable || web.updateAvailable)
        row.latestVersion })

inductive ApplyError where
  | badRequest (message : JsString)
  | badGateway (message : JsString)
  | conflict (message : JsString)

def apply (row : Row) (w : World) : Except ApplyError Row :=
  match cfg.installDir with
  | none => .error (.badRequest (js ("INSTALL_DIR is not set — add INSTALL_DIR=<absolute path of the " ++
      "folder holding docker-compose.dist.yml on this host> to .env.dist and restart, then try again")))
  | some _ =>
    let apiLookup := tryRemoteDigest cfg.apiImage w.api
    let webLookup := tryRemoteDigest cfg.webImage w.web
    let failures := [apiLookup.error, webLookup.error].filterMap id
    if failures ≠ [] then
      let reasons := failures.map fun e =>
        if e.getLast? = some (cu '.') then e else e ++ js "."
      .error (.badGateway (js "Not updating: " ++ join reasons (js " ") ++
        js " Check API_IMAGE / WEB_IMAGE and that the registry is reachable."))
    else
      let apiBase := baseline row.apiDigest row.apiRef cfg.apiImage
      let webBase := baseline row.webDigest row.webRef cfg.webImage
      match blockReason cfg w ((apiBase ≠ none && apiBase ≠ apiLookup.digest) ||
          (webBase ≠ none && webBase ≠ webLookup.digest)) row.latestVersion with
      | some blocked => .error (.conflict blocked)
      | none =>
        .ok
          { row with
            apiDigest := apiLookup.digest
            apiRef := some cfg.apiImage
            webDigest := webLookup.digest
            webRef := some cfg.webImage
            checkedAt := some w.now
            applyStartedAt := some w.now
            applyFromVersion := some w.currentVersion }

/-- How the helper container fares, and which containers it replaced. -/
structure ComposeRun where
  /-- What the daemon's answers made the helper's caller throw. -/
  thrown : Option JsString
  exitCode : Nat
  (apiReplaced webReplaced : Bool)

/-- `runComposeHelper` waits for the container; the exit status it gets is dropped. -/
def runComposeHelper (r : ComposeRun) : Except JsString Unit :=
  match r.thrown with
  | some err => .error err
  | none => .ok ()

/-! ## Runs -/

inductive Event where
  | check (w : World)
  /-- The run of the helper is over before the next request. -/
  | apply (w : World) (r : ComposeRun)

/-- The digests of what runs, once one has been seen. -/
structure Running where
  (api web : Option JsString)

structure State where
  row : Row
  running : Running
  log : List JsString

/-- What runs behind an apply: what was pulled if the container was replaced. -/
def replacedBy (replaced : Bool) (running digest : Option JsString) : Option JsString :=
  if replaced then digest else running.or digest

def digestOf (lookup : Except JsString JsString) : Option JsString := lookup.toOption

def step (s : State) : Event → State
  | .check w =>
    { s with
      row := (check cfg s.row w).1
      -- the first digest seen is taken for that of what runs
      running := ⟨s.running.api.or (digestOf w.api), s.running.web.or (digestOf w.web)⟩ }
  | .apply w r =>
    match apply cfg s.row w with
    | .error _ => s
    | .ok row =>
      { row := row
        running := ⟨replacedBy r.apiReplaced s.running.api (digestOf w.api),
          replacedBy r.webReplaced s.running.web (digestOf w.web)⟩
        log :=
          match runComposeHelper r with
          | .ok () => s.log
          | .error err => s.log ++ [js "Applying instance update failed: " ++ err] }

def after (s : State) (es : List Event) : State := es.foldl (step cfg) s

def start (row : Row) : State :=
  ⟨row, ⟨baseline row.apiDigest row.apiRef cfg.apiImage, baseline row.webDigest row.webRef cfg.webImage⟩,
    []⟩

/-- An update is available when the registry has another digest than what runs. -/
def Newer (running : Option JsString) (lookup : Except JsString JsString) : Prop :=
  ∃ x d, running = some x ∧ lookup = .ok d ∧ x ≠ d

/-- **The next check tells** of both images whether an update is available. -/
def Told (s : State) : Prop :=
  ∀ w, ((check cfg s.row w).2.api.updateAvailable = true ↔ Newer s.running.api w.api) ∧
    ((check cfg s.row w).2.web.updateAvailable = true ↔ Newer s.running.web w.web)

/-- An apply that is carried out replaces the containers of which it has a newer image. -/
def Replaces (s : State) (w : World) (r : ComposeRun) : Prop :=
  ∀ row, apply cfg s.row w = .ok row →
    (Newer s.running.api w.api → r.apiReplaced = true) ∧
      (Newer s.running.web w.web → r.webReplaced = true)

/-! ## What a request does to the baselines -/

def baselines (row : Row) : Option JsString × Option JsString :=
  (baseline row.apiDigest row.apiRef cfg.apiImage, baseline row.webDigest row.webRef cfg.webImage)

variable {cfg}

theorem clearApplyingIfDone_digests (row : Row) (w : World) :
    (clearApplyingIfDone row w).apiDigest = row.apiDigest ∧
      (clearApplyingIfDone row w).apiRef = row.apiRef ∧
      (clearApplyingIfDone row w).webDigest = row.webDigest ∧
      (clearApplyingIfDone row w).webRef = row.webRef := by
  unfold clearApplyingIfDone
  split
  · exact ⟨rfl, rfl, rfl, rfl⟩
  · split <;> exact ⟨rfl, rfl, rfl, rfl⟩

theorem digest_tryRemoteDigest (imageRef : JsString) (lookup : Except JsString JsString) :
    (tryRemoteDigest imageRef lookup).digest = digestOf lookup := by
  cases lookup <;> rfl

theorem baselines_clear (row : Row) (w : World) :
    baselines cfg (clearApplyingIfDone row w) = baselines cfg row := by
  obtain ⟨hapi, hapiRef, hweb, hwebRef⟩ := clearApplyingIfDone_digests row w
  rw [baselines, hapi, hapiRef, hweb, hwebRef]
  rfl

theorem baseline_self (digest : Option JsString) (image : JsString) :
    baseline digest (some image) image = digest := if_pos rfl

theorem baseline_filled (digest ref found : Option JsString) (image : JsString) :
    (if baseline digest ref image = none ∧ found ≠ none then baseline found (some image) image
      else baseline digest ref image) = (baseline digest ref image).or found := by
  rw [baseline_self]
  cases hbase : baseline digest ref image with
  | some x => simp
  | none => cases found <;> simp

/-- **A check** keeps the baselines that are there. -/
theorem baselines_check (row : Row) (w : World) : baselines cfg (check cfg row w).1 =
    ((baselines cfg row).1.or (digestOf w.api), (baselines cfg row).2.or (digestOf w.web)) := by
  rw [← baselines_clear row w, ← digest_tryRemoteDigest cfg.apiImage w.api,
    ← digest_tryRemoteDigest cfg.webImage w.web]
  unfold check baselines
  dsimp only
  generalize clearApplyingIfDone row w = row
  rw [← baseline_filled row.apiDigest row.apiRef, ← baseline_filled row.webDigest row.webRef]
  split <;> split <;> rfl

/-- **An apply** takes what it looked up for its baselines, and had found it. -/
theorem baselines_apply {row row' : Row} {w : World} (h : apply cfg row w = .ok row') :
    (∃ a b, w.api = .ok a ∧ w.web = .ok b) ∧
      baselines cfg row' = (digestOf w.api, digestOf w.web) := by
  unfold apply at h
  split at h
  · cases h
  · dsimp only at h
    split at h
    · cases h
    · rename_i hfailures
      split at h
      · cases h
      · cases h
        rw [baselines, baseline_self, baseline_self, digest_tryRemoteDigest, digest_tryRemoteDigest]
        refine ⟨?_, rfl⟩
        cases hapi : w.api with
        | error e => exact absurd (by simp [hapi, tryRemoteDigest]) hfailures
        | ok a =>
          cases hweb : w.web with
          | error e => exact absurd (by simp [hweb, tryRemoteDigest]) hfailures
          | ok b => exact ⟨a, b, rfl, rfl⟩

theorem updateAvailable_imageStatus (image : JsString) (base : Option JsString)
    (lookup : Except JsString JsString) :
    (imageStatus image base (tryRemoteDigest image lookup)).updateAvailable = true ↔
      Newer base lookup := by
  cases base with
  | none => simp [imageStatus, Newer]
  | some x =>
    cases lookup with
    | error e => simp [imageStatus, Newer, tryRemoteDigest]
    | ok d => simp [imageStatus, Newer, tryRemoteDigest]

theorem updateAvailable_iff (row : Row) (w : World) :
    ((check cfg row w).2.api.updateAvailable = true ↔ Newer (baselines cfg row).1 w.api) ∧
      ((check cfg row w).2.web.updateAvailable = true ↔ Newer (baselines cfg row).2 w.web) := by
  rw [← baselines_clear row w]
  exact ⟨updateAvailable_imageStatus _ _ _, updateAvailable_imageStatus _ _ _⟩

/-! ## Runs told of -/

/-- The baselines are the digests of what runs. -/
def Agree (cfg : Config) (s : State) : Prop := baselines cfg s.row = (s.running.api, s.running.web)

theorem newer_ok {x : Option JsString} {d : JsString} :
    Newer x (.ok d) ↔ ∃ y, x = some y ∧ y ≠ d := by
  constructor
  · rintro ⟨y, d', rfl, hd, hne⟩
    cases hd
    exact ⟨y, rfl, hne⟩
  · rintro ⟨y, rfl, hne⟩
    exact ⟨y, d, rfl, rfl, hne⟩

/-- Two digests that every lookup compares alike are the same. -/
theorem eq_of_newer_iff {x y : Option JsString} (h : ∀ lookup, Newer x lookup ↔ Newer y lookup) :
    x = y := by
  have hlonger : ∀ d : JsString, d ≠ 0 :: d := fun d hd => by simpa using congrArg List.length hd
  cases x with
  | none =>
    cases y with
    | none => rfl
    | some b =>
      obtain ⟨_, hnone, _⟩ := newer_ok.mp ((h (.ok (0 :: b))).mpr (newer_ok.mpr ⟨b, rfl, hlonger b⟩))
      cases hnone
  | some a =>
    cases y with
    | none =>
      obtain ⟨_, hnone, _⟩ := newer_ok.mp ((h (.ok (0 :: a))).mp (newer_ok.mpr ⟨a, rfl, hlonger a⟩))
      cases hnone
    | some b =>
      by_contra hne
      obtain ⟨a', ha, hself⟩ := newer_ok.mp
        ((h (.ok a)).mpr (newer_ok.mpr ⟨b, rfl, fun hba => hne (hba ▸ rfl)⟩))
      exact hself (Option.some.inj ha).symm

theorem told_iff_agree (s : State) : Told cfg s ↔ Agree cfg s := by
  have hiff := @updateAvailable_iff cfg s.row
  constructor
  · intro h
    have hworld : ∀ api web : Except JsString JsString,
        (Newer (baselines cfg s.row).1 api ↔ Newer s.running.api api) ∧
          (Newer (baselines cfg s.row).2 web ↔ Newer s.running.web web) := by
      intro api web
      let w : World := ⟨api, web, 0, 0, [], .unknown, none, none⟩
      exact ⟨(hiff w).1.symm.trans (h w).1, (hiff w).2.symm.trans (h w).2⟩
    exact Prod.ext (eq_of_newer_iff fun lookup => (hworld lookup lookup).1)
      (eq_of_newer_iff fun lookup => (hworld lookup lookup).2)
  · intro h w
    obtain ⟨hapi, hweb⟩ := hiff w
    rw [h] at hapi hweb
    exact ⟨hapi, hweb⟩

/-- What an apply took for the baseline runs behind it if it replaced what it had to. -/
theorem replacedBy_iff {replaced : Bool} {running : Option JsString} {d : JsString} :
    some d = replacedBy replaced running (some d) ↔ (Newer running (.ok d) → replaced = true) := by
  rw [newer_ok]
  cases replaced with
  | true => simp [replacedBy]
  | false =>
    cases running with
    | none => simp [replacedBy]
    | some x => simp [replacedBy, eq_comm]

theorem agree_step_iff {s : State} (h : Agree cfg s) (e : Event) :
    Agree cfg (step cfg s e) ↔ ∀ w r, e = .apply w r → Replaces cfg s w r := by
  cases e with
  | check w =>
    refine iff_of_true ?_ fun _ _ he => by cases he
    rw [Agree, step, baselines_check, h]
  | apply w r =>
    rw [step]
    cases happly : apply cfg s.row w with
    | error err =>
      refine iff_of_true h fun w' r' he row hrow => ?_
      cases he
      rw [happly] at hrow
      cases hrow
    | ok row =>
      obtain ⟨⟨a, b, ha, hb⟩, hbase⟩ := baselines_apply happly
      have hreplaced : Agree cfg ⟨row, ⟨replacedBy r.apiReplaced s.running.api (digestOf w.api),
            replacedBy r.webReplaced s.running.web (digestOf w.web)⟩,
            match runComposeHelper r with
            | .ok () => s.log
            | .error err => s.log ++ [js "Applying instance update failed: " ++ err]⟩ ↔
          (Newer s.running.api w.api → r.apiReplaced = true) ∧
            (Newer s.running.web w.web → r.webReplaced = true) := by
        rw [Agree, hbase, Prod.ext_iff, ha, hb]
        exact and_congr replacedBy_iff replacedBy_iff
      refine hreplaced.trans ⟨?_, fun hall => hall w r rfl row happly⟩
      rintro hboth w' r' he row' hrow'
      cases he
      exact hboth

theorem after_concat (s : State) (es : List Event) (e : Event) :
    after cfg s (es ++ [e]) = step cfg (after cfg s es) e := by
  rw [after, List.foldl_append]
  rfl

end

/-- **Every check tells what is newer than what runs** when every apply that had something newer
replaced the containers, and only then. -/
theorem updates_told_iff (cfg : Config) (row : Row) (es : List Event) :
    (∀ front, front <+: es → Told cfg (after cfg (start cfg row) front)) ↔
      ∀ front w r, front ++ [.apply w r] <+: es →
        Replaces cfg (after cfg (start cfg row) front) w r := by
  constructor
  · intro h front w r hpre
    have hbefore := (told_iff_agree _).mp (h front ((List.prefix_append front _).trans hpre))
    have hafter := (told_iff_agree _).mp (h _ hpre)
    rw [after_concat] at hafter
    exact (agree_step_iff hbefore _).mp hafter w r rfl
  · intro h front hpre
    rw [told_iff_agree]
    induction front using List.reverseRecOn with
    | nil => rfl
    | append_singleton front e ih =>
      rw [after_concat]
      refine (agree_step_iff (ih ((List.prefix_append front _).trans hpre)) e).mpr ?_
      rintro w r rfl
      exact h front w r hpre

def hub : Config :=
  ⟨js "hideandseeklab/aoox-api:latest", js "hideandseeklab/aoox-web:latest", some (js "/opt/aoox")⟩

/-- The registry has this digest for both images. -/
def digestWorld (digest : JsString) : World :=
  ⟨.ok digest, .ok digest, 0, 0, js "0.1.0", .latest, some (js "latest"), none⟩

/-- A helper that ends with status 1, as it does when nothing can be pulled. -/
def failedRun : ComposeRun := ⟨none, 1, false, false⟩

/-- An apply that replaced nothing ends the notice of the update. -/
theorem update_forgotten :
    ¬ ∀ (cfg : Config) (row : Row) (es front : List Event), front <+: es →
      Told cfg (after cfg (start cfg row) front) := by
  intro h
  have htold := h hub .fresh
    [.check (digestWorld (js "sha256:1")), .check (digestWorld (js "sha256:2")),
      .apply (digestWorld (js "sha256:2")) failedRun] _ (List.prefix_refl _)
    (digestWorld (js "sha256:2"))
  refine absurd (htold.1.mpr ?_) (by decide)
  exact newer_ok.mpr ⟨js "sha256:1", by decide, by decide⟩

end Aoox.InstanceUpdates
