import Aoox.ImageTags
import Aoox.Runs

/-! # Following newer image tags

The watcher lists the tags of an application's image and moves the application to
the newest compatible one.  When that deployment fails the reference goes back, and
`autoUpdateLastTag` keeps the tag from being tried again.  It is one column: a tag
that failed is forgotten as soon as another one has been tried, and comes back
when the registry withdraws the later one (`withdrawn_retried`).  As long as the
list still has the tag tried last, or a newer one, everything that failed lies
behind it and stays there (`reverted_never_followed`).
-/
namespace Aoox.ImageUpdates

open JsString ImageTags Std Option

structure ImageReference where
  (registry repository tag : JsString)
  digest : Option JsString
  deriving Repr

def DOCKER_HUB : JsString := js "registry-1.docker.io"

def lastIndexOf (text : JsString) (c : CodeUnit) : Option Nat :=
  (text.reverse.findIdx? (· = c)).map (text.length - 1 - ·)

/-- A colon behind the last slash starts the tag. -/
def splitTag (text : JsString) : JsString × Option JsString :=
  match lastIndexOf text (cu ':') with
  | none => (text, none)
  | some i =>
    if (lastIndexOf text (cu '/')).all (· < i) then (text.take i, some (text.drop (i + 1)))
    else (text, none)

/-- A first segment with a dot, a colon or `localhost` is the registry. -/
def splitRegistry (rest : JsString) : JsString × JsString :=
  match cutFirst (cu '/') rest with
  | (first, some path) =>
    if includes first [cu '.'] || includes first [cu ':'] || first = js "localhost" then (first, path)
    else (DOCKER_HUB, rest)
  | (_, none) => (DOCKER_HUB, rest)

def parseImageRef (ref : JsString) : ImageReference :=
  let (rest, digest) := cutFirst (cu '@') (trim ref)
  let (first, path) := splitRegistry rest
  let registry := if first = js "docker.io" || first = js "index.docker.io" then DOCKER_HUB else first
  let (name, tag) := splitTag path
  { registry := registry
    repository :=
      if registry = DOCKER_HUB && !includes name [cu '/'] then js "library/" ++ name else name
    tag := tag.getD (js "latest")
    digest := digest }

/-- The reference with its tag replaced; a digest is dropped. -/
def withTag (ref tag : JsString) : JsString :=
  (splitTag (cutFirst (cu '@') (trim ref)).1).1 ++ cu ':' :: tag

structure FollowRevert where
  (followedRef previousRef : JsString)
  previousDigest : Option JsString

/-- A deployment that runs, with the reference it pulls; `follow` is there when
the watcher moved the application to a new tag. -/
structure Deployment where
  imageRef : Option JsString
  follow : Option (FollowRevert × JsString)

/-- What the watcher has read of the row. -/
structure Copy where
  (imageRef imageDigest autoUpdateLastTag : Option JsString)

structure State where
  (imageRef imageDigest autoUpdateLastTag : Option JsString)
  active : List Deployment
  reading : Option Copy
  /-- The tags whose follow deployment failed and was put back since the user
  last changed the reference. -/
  reverted : List JsString
  /-- The tags followed although they were among these. -/
  retried : List JsString

inductive Action where
  | read
  /-- The rest of a check: what the registry lists (`none` when that fails), the
  digest it serves, and whether another deployment takes the slot first. -/
  | check (tags : Option (List JsString)) (digest : Option (Option JsString)) (lost : Bool)
  | deploy
  | succeed (i : Nat) (digest : Option JsString)
  /-- A deployment fails, perhaps after it has pulled; writing the reference back
  may fail too. -/
  | fail (i : Nat) (digest : Option (Option JsString)) (stuck : Bool)
  | setImageRef (ref : Option JsString)

def initial (imageRef : Option JsString) : State := ⟨imageRef, none, none, [], none, [], []⟩

/-- The tag that can be replaced: a version, and no digest pinned. -/
def Copy.tag (c : Copy) : Option JsString := do
  let parsed := parseImageRef (← c.imageRef)
  if parsed.digest.getD [] = [] && (parseSemver parsed.tag).isSome then return parsed.tag else none

/-- The tag to move to: the newest compatible one, unless it was tried last. -/
def Copy.compatibleTag (c : Copy) (tags : List JsString) : Option JsString := do
  let newest ← newerImageTag tags (← c.tag) true
  if c.autoUpdateLastTag = some newest then none else return newest

/-- `followTag`: nothing happens while a deployment is active or when the
reference has changed since it was read. -/
def followTag (s : State) (c : Copy) (oldRef newTag : JsString) (lost : Bool) : State :=
  if s.active ≠ [] || s.imageRef ≠ some oldRef then s
  else
    let newRef := withTag oldRef newTag
    { s with
      imageRef := some (if lost then oldRef else newRef)
      imageDigest := none
      autoUpdateLastTag := some newTag
      active :=
        if lost then s.active
        else [⟨some newRef, some (⟨newRef, oldRef, c.imageDigest⟩, newTag)⟩]
      retried := if newTag ∈ s.reverted then newTag :: s.retried else s.retried }

/-- The digest of the same tag: a first one is recorded, a new one deployed. -/
def compareDigest (s : State) (c : Copy) (digest : Option JsString) : State :=
  match digest, c.imageDigest with
  | some d, none => { s with imageDigest := some d }
  | some d, some previous =>
    if d ≠ previous && s.active = [] then { s with active := [⟨c.imageRef, none⟩] } else s
  | none, _ => s

def checkWith (s : State) (c : Copy) (tags : Option (List JsString))
    (digest : Option (Option JsString)) (lost : Bool) : State :=
  match c.imageRef, tags.bind c.compatibleTag with
  | some oldRef, some newTag => followTag s c oldRef newTag lost
  | _, _ => (digest.map (compareDigest s c)).getD s

/-- The digest of what was pulled, while the reference is still that one. -/
def recordDigest (s : State) (d : Deployment) (digest : Option JsString) : State :=
  if s.imageRef = d.imageRef then { s with imageDigest := digest } else s

def revertFollowedTag (s : State) (f : FollowRevert × JsString) : State :=
  if s.imageRef = some f.1.followedRef then
    { s with
      imageRef := some f.1.previousRef
      imageDigest := f.1.previousDigest
      reverted := f.2 :: s.reverted }
  else s

def step (s : State) : Action → Option State
  | .read =>
    match s.reading with
    | none => some { s with reading := some ⟨s.imageRef, s.imageDigest, s.autoUpdateLastTag⟩ }
    | some _ => none
  | .check tags digest lost =>
    match s.reading with
    | some c => some (checkWith { s with reading := none } c tags digest lost)
    | none => none
  | .deploy => some { s with active := ⟨s.imageRef, none⟩ :: s.active }
  | .succeed i digest =>
    match s.active[i]? with
    | some d => some (recordDigest { s with active := s.active.eraseIdx i } d digest)
    | none => none
  | .fail i digest stuck =>
    match s.active[i]? with
    | some d =>
      let s := { s with active := s.active.eraseIdx i }
      let s := (digest.map (recordDigest s d)).getD s
      some (if stuck then s else (d.follow.map (revertFollowedTag s)).getD s)
    | none => none
  | .setImageRef ref =>
    if ref = s.imageRef then some s
    else some { s with imageRef := ref, imageDigest := none, reverted := [] }

/-- No tag was followed again after it had been put back. -/
def NeverRetried (s : State) : Prop := s.retried = []

/-- The list offers the tag tried last or a newer one, and nothing else of the
same rank. -/
def stillListed (current : JsString) (cur : Semver) (tags : List JsString) (last : JsString)
    (v : Semver) : Bool :=
  tags.any (fun t =>
    (offered current cur true t).any fun w => t = last || compareSemver w v = .gt) &&
  tags.all fun t => (parseSemver t).all fun w => compareSemver w v ≠ .eq || t = last

/-- When something was put back, the application is already on the tag tried last
(or behind it), or that tag has not been withdrawn. -/
def NotWithdrawn (s : State) : Action → Prop
  | .check (some tags) _ _ => s.reverted ≠ [] →
      ∀ c, s.reading = some c → ∀ current, c.tag = some current →
      ∀ cur, parseSemver current = some cur →
      ∀ last, s.autoUpdateLastTag = some last → ∀ v, parseSemver last = some v →
        (compareSemver v cur).isLE ∨ stillListed current cur tags last v = true
  | _ => True

instance (s : State) : (a : Action) → Decidable (NotWithdrawn s a)
  | .check (some _) _ _ => by unfold NotWithdrawn; infer_instance
  | .check none _ _ | .read | .deploy | .succeed _ _ | .fail _ _ _ | .setImageRef _ =>
    isTrue trivial

/-- Everything put back is a version not newer than the tag tried last. -/
def Behind (reverted : List JsString) (last : Option JsString) : Prop :=
  ∀ t ∈ reverted, ∃ l w v, last = some l ∧ parseSemver t = some w ∧ parseSemver l = some v ∧
    (compareSemver w v).isLE

structure Inv (s : State) : Prop where
  behind : Behind s.reverted s.autoUpdateLastTag
  active : ∀ d ∈ s.active, ∀ f, d.follow = some f →
    s.autoUpdateLastTag = some f.2 ∧ (parseSemver f.2).isSome
  reading : ∀ c, s.reading = some c → c.autoUpdateLastTag = s.autoUpdateLastTag
  never : NeverRetried s

variable {s : State} {c : Copy}

variable {tags : List JsString} {t : JsString}

theorem compatibleTag_eq_some (h : c.compatibleTag tags = some t) :
    ∃ current, c.tag = some current ∧ newerImageTag tags current true = some t ∧
      c.autoUpdateLastTag ≠ some t := by
  simp only [Copy.compatibleTag, bind_eq_bind, bind_eq_some_iff] at h
  obtain ⟨current, hcurrent, newest, hnewest, h⟩ := h
  split at h
  · cases h
  · next hlast =>
    obtain rfl := some.inj h
    exact ⟨current, hcurrent, hnewest, hlast⟩

/-- **What is followed next is newer than what was tried last**: the application
has got past that tag, or the list still has it and it was not picked. -/
theorem newer_than_last {current last : JsString} {v : Semver}
    (ht : newerImageTag tags current true = some t) (hne : t ≠ last)
    (hlast : parseSemver last = some v) (hcond : ∀ cur, parseSemver current = some cur →
      (compareSemver v cur).isLE ∨ stillListed current cur tags last v = true) :
    ∃ w, parseSemver t = some w ∧ compareSemver v w = .lt := by
  obtain ⟨cur, w, hcur, hmem, hoff, hmax⟩ := newerImageTag_spec ht
  obtain ⟨hparse, hgt⟩ := newer_of_offered hoff
  refine ⟨w, hparse, ?_⟩
  rcases hcond cur hcur with hle | hlisted
  · exact TransCmp.lt_of_isLE_of_lt hle (OrientedCmp.lt_of_gt hgt)
  · simp only [stillListed, Bool.and_eq_true, List.any_eq_true, List.all_eq_true] at hlisted
    obtain ⟨⟨t', ht', hany⟩, hrank⟩ := hlisted
    obtain ⟨w', hoff', hnew⟩ := (any_eq_true _ _).mp hany
    have hle := hmax t' ht' w' hoff'
    rcases Bool.or_eq_true_iff.mp hnew with heq | hnewer
    · -- the tag itself is listed, so what was picked is not behind it, nor level
      obtain rfl := of_decide_eq_true heq
      obtain rfl := some.inj (hlast.symm.trans (newer_of_offered hoff').1)
      have hlevel : compareSemver w v ≠ .eq := by
        have := hrank t hmem
        simpa [hparse, hne] using this
      refine OrientedCmp.lt_of_not_isLE fun hge => hlevel ?_
      exact OrientedCmp.isLE_antisymm hge hle
    · exact TransCmp.lt_of_lt_of_isLE (OrientedCmp.lt_of_gt (of_decide_eq_true hnewer)) hle

/-- Nothing that was put back is followed, and it all lies behind the new tag. -/
theorem Behind.follow {reverted : List JsString} {last : Option JsString} {w : Semver}
    (h : Behind reverted last) (ht : parseSemver t = some w)
    (hnewer : reverted ≠ [] → ∀ l, last = some l → ∀ v, parseSemver l = some v →
      compareSemver v w = .lt) : t ∉ reverted ∧ Behind reverted (some t) := by
  have hlt : ∀ t' ∈ reverted, ∃ w', parseSemver t' = some w' ∧ compareSemver w' w = .lt := by
    intro t' ht'
    obtain ⟨l, w', v, hl, hw', hv, hle⟩ := h t' ht'
    exact ⟨w', hw', TransCmp.lt_of_isLE_of_lt hle (hnewer (List.ne_nil_of_mem ht') l hl v hv)⟩
  constructor
  · intro hmem
    obtain ⟨w', hw', hlt⟩ := hlt t hmem
    obtain rfl := some.inj (ht.symm.trans hw')
    have hself : compareSemver w w = .eq := ReflCmp.compare_self
    rw [hself] at hlt
    cases hlt
  · intro t' ht'
    obtain ⟨w', hw', hlt⟩ := hlt t' ht'
    exact ⟨t, w', w, rfl, hw', ht, by rw [hlt]; rfl⟩

/-- Deployments that follow nothing promise nothing. -/
theorem Inv.keep {s' : State} (h : Inv s) (hreverted : s'.reverted = s.reverted)
    (hlast : s'.autoUpdateLastTag = s.autoUpdateLastTag) (hretried : s'.retried = s.retried)
    (hactive : ∀ d ∈ s'.active, d ∈ s.active ∨ d.follow = none)
    (hreading : ∀ c, s'.reading = some c → c.autoUpdateLastTag = s.autoUpdateLastTag) :
    Inv s' where
  behind := by
    rw [hreverted, hlast]
    exact h.behind
  active d hd f hf := by
    rw [hlast]
    rcases hactive d hd with hd | hnone
    · exact h.active d hd f hf
    · rw [hnone] at hf
      cases hf
  reading c hc := by
    rw [hlast]
    exact hreading c hc
  never := hretried.trans h.never

variable {lost : Bool}

theorem inv_followTag {oldRef : JsString} (h : Inv s) (hread : s.reading = none)
    (hlast : c.autoUpdateLastTag = s.autoUpdateLastTag) (ht : c.compatibleTag tags = some t)
    (hcond : s.reverted ≠ [] → ∀ current, c.tag = some current →
      ∀ cur, parseSemver current = some cur →
      ∀ last, s.autoUpdateLastTag = some last → ∀ v, parseSemver last = some v →
        (compareSemver v cur).isLE ∨ stillListed current cur tags last v = true) :
    Inv (followTag s c oldRef t lost) := by
  obtain ⟨current, hcurrent, hnewest, hne⟩ := compatibleTag_eq_some ht
  obtain ⟨cur, w, hcur, hmem, hoff, hmax⟩ := newerImageTag_spec hnewest
  have hparse := (newer_of_offered hoff).1
  obtain ⟨hfresh, hbehind⟩ := h.behind.follow hparse fun hrev l hl v hv => by
    have hnel : t ≠ l := fun heq => hne (by rw [hlast, hl, heq])
    obtain ⟨w', hw', hlt⟩ := newer_than_last hnewest hnel hv fun cur hcur =>
      hcond hrev current hcurrent cur hcur l hl v hv
    obtain rfl := some.inj (hparse.symm.trans hw')
    exact hlt
  unfold followTag
  split
  · exact h
  · next hfree =>
    simp only [Bool.or_eq_true, decide_eq_true_eq, not_or, not_not] at hfree
    refine ⟨hbehind, ?_, ?_, ?_⟩
    · intro d hd f hf
      dsimp only at hd ⊢
      split at hd
      · rw [hfree.1] at hd
        cases hd
      · obtain rfl := List.mem_singleton.mp hd
        obtain rfl := some.inj hf
        exact ⟨rfl, by simp [hparse]⟩
    · intro c' hc'
      rw [show s.reading = some c' from hc'] at hread
      cases hread
    · exact h.never

theorem inv_compareDigest (h : Inv s) (c : Copy) (digest : Option JsString) :
    Inv (compareDigest s c digest) := by
  unfold compareDigest
  split
  · exact h.keep rfl rfl rfl (fun d hd => Or.inl hd) h.reading
  · split
    · refine h.keep rfl rfl rfl (fun d hd => Or.inr ?_) h.reading
      rw [List.mem_singleton.mp hd]
    · exact h
  · exact h

theorem inv_recordDigest (h : Inv s) (d : Deployment) (digest : Option JsString) :
    Inv (recordDigest s d digest) := by
  unfold recordDigest
  split
  · exact h.keep rfl rfl rfl (fun d hd => Or.inl hd) h.reading
  · exact h

theorem inv_revertFollowedTag {f : FollowRevert × JsString} (h : Inv s)
    (hlast : s.autoUpdateLastTag = some f.2) (hparse : (parseSemver f.2).isSome) :
    Inv (revertFollowedTag s f) := by
  unfold revertFollowedTag
  split
  · refine ⟨?_, h.active, h.reading, h.never⟩
    intro t ht
    rcases List.mem_cons.mp ht with rfl | ht
    · obtain ⟨v, hv⟩ := isSome_iff_exists.mp hparse
      exact ⟨f.2, v, v, hlast, hv, hv, ReflCmp.isLE_rfl⟩
    · exact h.behind t ht
  · exact h

theorem inv_checkWith {tags : Option (List JsString)} {digest : Option (Option JsString)}
    (h : Inv s) (hread : s.reading = some c) (hcond : NotWithdrawn s (.check tags digest lost)) :
    Inv (checkWith { s with reading := none } c tags digest lost) := by
  have hidle : Inv { s with reading := none } :=
    h.keep rfl rfl rfl (fun d hd => Or.inl hd) (fun c hc => by cases hc)
  unfold checkWith
  split
  · next oldRef newTag href htag =>
    obtain ⟨list, rfl, hlist⟩ := bind_eq_some_iff.mp htag
    exact inv_followTag hidle rfl (h.reading c hread) hlist fun hrev => hcond hrev c hread
  · cases digest with
    | none => exact hidle
    | some d => exact inv_compareDigest hidle c d

/-- Taking a deployment off the list. -/
theorem Inv.eraseIdx (h : Inv s) (i : Nat) : Inv { s with active := s.active.eraseIdx i } :=
  h.keep rfl rfl rfl (fun _ hd => Or.inl (List.eraseIdx_subset hd)) h.reading

theorem inv_step (s : State) (a : Action) (s' : State) (hinv : Inv s) (hcond : NotWithdrawn s a)
    (h : step s a = some s') : Inv s' := by
  cases a with
  | read =>
    simp only [step] at h
    split at h
    · obtain rfl := some.inj h
      refine hinv.keep rfl rfl rfl (fun d hd => Or.inl hd) fun c hc => ?_
      obtain rfl := some.inj hc
      rfl
    · cases h
  | check tags digest lost =>
    simp only [step] at h
    split at h
    · next c hread =>
      obtain rfl := some.inj h
      exact inv_checkWith hinv hread hcond
    · cases h
  | deploy =>
    obtain rfl := some.inj h
    refine hinv.keep rfl rfl rfl (fun d hd => ?_) hinv.reading
    rcases List.mem_cons.mp hd with rfl | hd
    · exact Or.inr rfl
    · exact Or.inl hd
  | succeed i digest =>
    simp only [step] at h
    split at h
    · next d hd =>
      obtain rfl := some.inj h
      exact inv_recordDigest (hinv.eraseIdx i) d digest
    · cases h
  | fail i digest stuck =>
    simp only [step] at h
    split at h
    · next d hd =>
      obtain rfl := some.inj h
      have hrecord : Inv ((digest.map (recordDigest { s with active := s.active.eraseIdx i } d)).getD
          { s with active := s.active.eraseIdx i }) := by
        cases digest with
        | none => exact hinv.eraseIdx i
        | some digest => exact inv_recordDigest (hinv.eraseIdx i) d digest
      split
      · exact hrecord
      · cases hfollow : d.follow with
        | none => exact hrecord
        | some f =>
          obtain ⟨hlast, hparse⟩ := hinv.active d (List.mem_of_getElem? hd) f hfollow
          refine inv_revertFollowedTag hrecord ?_ hparse
          cases digest with
          | none => exact hlast
          | some digest =>
            simp only [map_some, getD_some, recordDigest]
            split <;> exact hlast
    · cases h
  | setImageRef ref =>
    simp only [step] at h
    split at h
    · obtain rfl := some.inj h
      exact hinv
    · obtain rfl := some.inj h
      exact ⟨fun t ht => by (cases ht), hinv.active, hinv.reading, hinv.never⟩

theorem inv_initial (imageRef : Option JsString) : Inv (initial imageRef) where
  behind t ht := by cases ht
  active d hd := by cases hd
  reading c hc := by cases hc
  never := rfl

/-- **A tag that was put back is never followed again** in a run whose checks
still find the tag tried last. -/
theorem reverted_never_followed (imageRef : Option JsString) (as : List Action) (s : State)
    (hmeets : Runs.Meets step NotWithdrawn (initial imageRef) as)
    (hexec : Runs.exec step (initial imageRef) as = some s) : NeverRetried s :=
  (Runs.exec_invariant inv_step as (initial imageRef) s (inv_initial imageRef) hmeets hexec).never

/-- One round of the watcher: a check over a list, and the deployment fails. -/
def failedRound (tags : List JsString) : List Action :=
  [.read, .check (some tags) none false, .fail 0 none false]

/-- Two tags fail one after the other and stay listed; a third one is followed. -/
def growing : List Action :=
  failedRound [js "1.0.0", js "1.1.0"] ++ failedRound [js "1.0.0", js "1.1.0", js "1.2.0"] ++
    [.read, .check (some [js "1.0.0", js "1.1.0", js "1.2.0"]) none false,
      .read, .check (some [js "1.0.0", js "1.1.0", js "1.2.0", js "1.2.1"]) none false]

theorem reverted_never_followed_growing : ∃ s,
    Runs.exec step (initial (some (js "shop:1.0.0"))) growing = some s ∧
      s.imageRef = some (js "shop:1.2.1") ∧ s.reverted = [js "1.2.0", js "1.1.0"] ∧ NeverRetried s := by
  refine ⟨_, rfl, by decide, by decide,
    reverted_never_followed (some (js "shop:1.0.0")) growing _ (by decide) rfl⟩

/-- The second tag is withdrawn after it failed; the first one failed before. -/
def withdrawn : List Action :=
  failedRound [js "1.0.0", js "1.1.0"] ++ failedRound [js "1.0.0", js "1.1.0", js "1.2.0"] ++
    [.read, .check (some [js "1.0.0", js "1.1.0"]) none false]

theorem withdrawn_retried : ¬ ∀ (imageRef : Option JsString) (as : List Action) (s : State),
    Runs.exec step (initial imageRef) as = some s → NeverRetried s := by
  intro h
  exact absurd (h (some (js "shop:1.0.0")) withdrawn _ rfl) (by unfold NeverRetried; decide)

end Aoox.ImageUpdates
