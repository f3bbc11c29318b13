import Aoox.ImageReferences

/-! # Images that are still referenced

The image manager removes an image unless a stored reference points at it.  `imageMatchesRef` decides
that from the text: 12 to 64 hexadecimal digits are an id and nothing else, and every other text is a
name.  The daemon looks first whether one of its images has the name, unless the text is an id in
full, and takes the digits for the beginning of an id after that, however few they are.

Between the two readings a repository may be named like an id, and an id may be shorter than a name
may not be.  A reference protects the image that the daemon resolves it to, and no image of another
repository, when neither happens (`protected_iff`).
-/
namespace Aoox.ImageProtection
open JsString ImageReferences List Option

/-! ## The guard -/

structure ImageLike where
  id : JsString
  (repoTags repoDigests : List JsString)

/-- Registry of a tag, `none` for images of Docker Hub. -/
def registryHostOf (tag : JsString) : Option JsString :=
  (parseProtectedRef tag).bind fun parsed =>
    let host := ((split parsed.name (js "/")).head?).getD []
    if host = js "docker.io" then none else some host

/-- `text.replace(/^sha256:/, '')` -/
def stripSha (text : JsString) : JsString :=
  if startsWith text (js "sha256:") then sliceFrom text 7 else text

/-- `[a-f0-9]` -/
def isHex (c : CodeUnit) : Bool := isDigit c || (cu 'a' ≤ c && c ≤ cu 'f')

/-- `IMAGE_ID` -/
def isImageId (ref : JsString) : Bool :=
  (stripSha ref).all isHex && 12 ≤ (stripSha ref).length && (stripSha ref).length ≤ 64

def hasPart (texts : List JsString) (name : JsString) (part : ParsedImageRef → Option JsString)
    (value : JsString) : Bool :=
  texts.any fun t => (parseProtectedRef t).any fun r => r.name = name && part r = some value

def imageMatchesRef (image : ImageLike) (ref : JsString) : Bool :=
  if isImageId ref then startsWith (stripSha image.id) (stripSha ref)
  else
    match parseProtectedRef ref with
    | none => false
    | some wanted =>
      (wanted.tag.any fun tag =>
        tag ≠ [] && hasPart image.repoTags wanted.name ParsedImageRef.tag tag) ||
      wanted.digest.any fun digest =>
        digest ≠ [] && hasPart image.repoDigests wanted.name ParsedImageRef.digest digest

inductive RefKind where
  | application | deployment | preview

/-- `KIND_TEXT` -/
def RefKind.text : RefKind → JsString
  | .application => js "the image an application is running"
  | .deployment => js "a deployment kept for rollback"
  | .preview => js "an open pull-request preview"

structure Sources where
  registryHosts : List JsString
  refs : List (JsString × RefKind)

def registryReason (image : ImageLike) (sources : Sources) : Option JsString :=
  image.repoTags.findSome? fun tag => (registryHostOf tag).bind fun host =>
    if host ≠ [] && sources.registryHosts.contains host then
      some (js "This image belongs to aoox's local registry (" ++ host ++
        js "); remove it from Registry.")
    else none

def protectionReason (image : ImageLike) (sources : Sources) (localRegistry : Bool) :
    Option JsString :=
  (if localRegistry then registryReason image sources else none).or
    (sources.refs.findSome? fun r =>
      if imageMatchesRef image r.1 then
        some (js "This image is still referenced by " ++ r.2.text ++ js " (" ++ r.1 ++
          js "); removing it would break that.")
      else none)

/-! ## Removing -/

structure Container where
  id : JsString
  names : List JsString
  imageId : JsString

def isSafeImageId (id : JsString) : Bool := isImageId id

def repoPath (tag : JsString) : JsString :=
  let cut := splitTag tag
  let noTag := if cut.2.getD [] = [] then tag else cut.1
  let noTag := match indexOf (js "@sha256:") noTag 0 with
    | some i => sliceTo noTag i
    | none => noTag
  match split noTag (js "/") with
  | first :: second :: parts =>
    join (if looksLikeHost first then second :: parts else first :: second :: parts) (js "/")
  | parts => join parts (js "/")

/-- The text, and then a hyphen, a slash or nothing. -/
def isNamespace (start text : JsString) : Bool :=
  startsWith text start && (sliceFrom text start.length).head?.all fun c => c = cu '-' || c = cu '/'

def isAooxImage (tags : List JsString) : Bool :=
  tags.any fun t =>
    isNamespace (js "aoox") (repoPath t) || isNamespace (js "hideandseeklab/aoox") (repoPath t)

def Container.shownName (c : Container) : JsString :=
  match c.names.head? with
  | some name => if startsWith name (js "/") then sliceFrom name 1 else name
  | none => sliceTo c.id 12

inductive Refusal where
  | notFound
  | conflict (message : JsString)

def remove (id : JsString) (images : List ImageLike) (containers : List Container)
    (sources : Sources) (localRegistry : Bool) : Except Refusal JsString :=
  if !isSafeImageId id then .error .notFound
  else
    match images.filter fun i => startsWith (stripSha i.id) (stripSha id) with
    | [image] =>
      let users := (containers.filter fun c => c.imageId = image.id).map Container.shownName
      if users ≠ [] then
        .error (.conflict (js "Image is used by " ++ js (toString users.length) ++
          js " container(s): " ++ join (users.take 5) (js ", ") ++ js "."))
      else if isAooxImage image.repoTags then
        .error (.conflict (js "This image belongs to aoox (helper, panel or rollback image); " ++
          js "clean it up from Settings > Docker disk."))
      else
        match protectionReason image sources localRegistry with
        | some reason => .error (.conflict reason)
        | none => .ok image.id
    | _ => .error .notFound

/-! ## What the daemon resolves -/

/-- Domain and path of a name as the daemon reads it: a first segment in capitals is a domain too. -/
def dockerName (name : JsString) : JsString × JsString :=
  match indexOf [cu '/'] name 0 with
  | none => (js "docker.io", js "library/" ++ name)
  | some i =>
    let first := sliceTo name i
    let rest := sliceFrom name (i + 1)
    if looksLikeHost first || toLowerCase first ≠ first then
      let domain := if first = js "index.docker.io" then js "docker.io" else first
      (domain, if domain = js "docker.io" ∧ cu '/' ∉ rest then js "library/" ++ rest else rest)
    else (js "docker.io", name)

/-- A reference as the daemon reads it. -/
structure Reading where
  base : JsString
  (tag digest : Option JsString)

/-- Domain, path, and the digest or else the tag. -/
def Reading.target (r : Reading) : (JsString × JsString) × (Option JsString × Option JsString) :=
  (dockerName r.base, match r.digest with
    | some digest => (none, some digest)
    | none => (some (r.tag.getD (js "latest")), none))

/-- `none` is a text that is no reference: it has a blank, no name, or an empty tag or digest. -/
def readReference (text : JsString) : Option Reading :=
  let cut := splitTag (splitDigest text).1
  let digest := (splitDigest text).2
  if text.any isSpace || cut.1 = [] || cut.2 = some [] || digest = some [] then none
  else some ⟨cut.1, cut.2, digest⟩

/-- An image as the daemon lists it: its tags and digests are references. -/
structure LocalImage extends ImageLike where
  tags : ∀ t ∈ repoTags, ∃ r, readReference t = some r ∧ r.digest = none
  digests : ∀ t ∈ repoDigests, ∃ r, readReference t = some r ∧ r.digest ≠ none

/-- The image has the name of the reference, with the digest, or else the tag, in it. -/
def Carries (ref : JsString) (image : LocalImage) : Prop :=
  ∃ n, readReference ref = some n ∧ ∃ t ∈ if n.digest = none then image.repoTags else image.repoDigests,
    ∃ m, readReference t = some m ∧ m.target = n.target

def HasId (ref : JsString) (image : LocalImage) : Prop := stripSha ref <+: stripSha image.id

def isIdPrefix (ref : JsString) : Bool :=
  (stripSha ref).all isHex && 1 ≤ (stripSha ref).length && (stripSha ref).length ≤ 64

def isFullId (ref : JsString) : Bool := isIdPrefix ref && (stripSha ref).length = 64

/-- An id in full, or the beginning of one that is no name. -/
def ReadAsId (images : List LocalImage) (ref : JsString) : Prop :=
  isFullId ref = true ∨ isIdPrefix ref = true ∧ ∀ image ∈ images, ¬ Carries ref image

/-- The image that a reference stands for. -/
def Resolves (images : List LocalImage) (ref : JsString) (image : LocalImage) : Prop :=
  (ReadAsId images ref ∧ HasId ref image ∧ ∀ other ∈ images, HasId ref other → other = image) ∨
    (¬ ReadAsId images ref ∧ Carries ref image)

/-- The image has a tag or a digest of the repository of the reference. -/
def OfRepository (ref : JsString) (image : LocalImage) : Prop :=
  ∃ n, readReference ref = some n ∧ ∃ t ∈ image.repoTags ++ image.repoDigests,
    ∃ m, readReference t = some m ∧ home m.base = home n.base

/-- The image has the reference's tag of the repository, however the repository is spelled. -/
def Bears (ref : JsString) (image : LocalImage) : Prop :=
  ∃ n, readReference ref = some n ∧ ∃ t ∈ image.repoTags,
    ∃ m, readReference t = some m ∧ home m.base = home n.base ∧
      m.tag.getD (js "latest") = n.tag.getD (js "latest")

/-! ## Names -/

theorem official_registry (registry path : JsString) : (official registry path).registry = registry := by
  rw [official_eq]

/-- On Docker Hub a name of one segment may be written with `library/`. -/
theorem official_library (path : JsString) :
    official DOCKER_HUB (if cu '/' ∉ path then js "library/" ++ path else path) =
      official DOCKER_HUB path := by
  have hslash : cu '/' ∈ js "library/" := by decide
  by_cases h : cu '/' ∈ path
  · rw [if_neg (not_not.mpr h)]
  · have hlong : official DOCKER_HUB (js "library/" ++ path) = ⟨DOCKER_HUB, js "library/" ++ path⟩ :=
      if_neg fun hc => hc.2 (mem_append_left path hslash)
    have hshort : official DOCKER_HUB path = ⟨DOCKER_HUB, js "library/" ++ path⟩ := if_pos ⟨rfl, h⟩
    rw [if_pos h, hlong, hshort]

theorem home_registry (name : JsString) :
    cu '/' ∉ (home name).registry ∧ (home name).registry ≠ js "docker.io" := by
  have hhub : cu '/' ∉ DOCKER_HUB ∧ DOCKER_HUB ≠ js "docker.io" := by decide
  rcases exists_first (cu '/') name with hno | ⟨first, path, rfl, hfirst⟩
  · rw [home_of_not_mem hno, official_registry]
    exact hhub
  · rw [home_slash hfirst]
    split_ifs
    · rw [official_registry, registryOf]
      split_ifs with hlist
      · exact hhub
      · refine ⟨fun hmem => hfirst ?_, fun heq => hlist (by simp [heq, HUB_HOSTS])⟩
        obtain ⟨c, hc, hlower⟩ := mem_map.mp hmem
        split_ifs at hlower with hup
        · rw [Bool.and_eq_true, decide_eq_true_eq, decide_eq_true_eq, UInt16.le_iff_toNat_le,
            UInt16.le_iff_toNat_le] at hup
          have hsum := congrArg UInt16.toNat hlower
          rw [UInt16.toNat_add] at hsum
          have hA : (cu 'A').toNat = 65 := rfl
          have hZ : (cu 'Z').toNat = 90 := rfl
          have hslash : (cu '/').toNat = 47 := rfl
          have hlift : (32 : CodeUnit).toNat = 32 := rfl
          omega
        · exact hlower ▸ hc
    · rw [official_registry]
      exact hhub

/-- **One canonical name, one repository.** -/
theorem home_eq_of_name {a b : JsString} (h : (home a).name = (home b).name) : home a = home b := by
  obtain ⟨ha, ha'⟩ := home_registry a
  obtain ⟨hb, hb'⟩ := home_registry b
  have hdocker : cu '/' ∉ js "docker.io" := by decide
  have hshown : ∀ {r : JsString}, cu '/' ∉ r → cu '/' ∉ if r = DOCKER_HUB then js "docker.io" else r := by
    intro r hr
    split_ifs
    · exact hdocker
    · exact hr
  obtain ⟨hregistry, hpath⟩ := append_cons_inj (hshown ha) (hshown hb) h
  have hsame : (home a).registry = (home b).registry := by
    split_ifs at hregistry with hca hcb hcb
    · rw [hca, hcb]
    · exact absurd hregistry.symm hb'
    · exact absurd hregistry ha'
    · exact hregistry
  calc home a = ⟨(home a).registry, (home a).path⟩ := rfl
    _ = ⟨(home b).registry, (home b).path⟩ := by rw [hsame, hpath]
    _ = home b := rfl

/-- The repository of a domain and a path. -/
def homeOf (r : JsString × JsString) : Repository :=
  if looksLikeHost r.1 then official (registryOf (toLowerCase r.1)) r.2
  else official DOCKER_HUB (r.1 ++ cu '/' :: r.2)

/-- **The daemon's name decides the repository.** -/
theorem home_eq_homeOf (name : JsString) : home name = homeOf (dockerName name) := by
  have hdocker : looksLikeHost (js "docker.io") = true := by decide
  have hhub : registryOf (toLowerCase (js "docker.io")) = DOCKER_HUB := by decide
  have hindex : registryOf (toLowerCase (js "index.docker.io")) = DOCKER_HUB := by decide
  rcases exists_first (cu '/') name with hno | ⟨first, path, rfl, hfirst⟩
  · have hname : dockerName name = (js "docker.io", js "library/" ++ name) := by
      rw [dockerName, indexOf_unit_eq_none hno]
    have hlibrary := official_library name
    rw [if_pos hno] at hlibrary
    rw [hname, homeOf, if_pos hdocker, hhub, home_of_not_mem hno, hlibrary]
  · have hdrop : (first ++ cu '/' :: path).drop (first.length + 1) = path := by simp
    rw [dockerName, indexOf_unit hfirst, home_slash hfirst]
    simp only [sliceTo, sliceFrom, take_left, hdrop]
    by_cases hh : looksLikeHost first = true
    · simp only [hh, Bool.true_or, if_true]
      by_cases hi : first = js "index.docker.io"
      · rw [if_pos hi]
        simp only [true_and]
        rw [homeOf, if_pos hdocker, hhub, hi, hindex, official_library]
      · rw [if_neg hi]
        by_cases hd : first = js "docker.io"
        · rw [hd]
          simp only [true_and]
          rw [homeOf, if_pos hdocker, hhub, official_library]
        · rw [if_neg fun hc => hd hc.1, homeOf, if_pos hh]
    · rw [if_neg hh]
      by_cases hcaps : toLowerCase first = first
      · simp only [hh, hcaps, ne_eq, not_true_eq_false, decide_false, Bool.or_self, Bool.false_eq_true,
          if_false]
        have hslash : cu '/' ∈ first ++ cu '/' :: path := by simp
        rw [homeOf, if_pos hdocker, hhub]
      · have hi : first ≠ js "index.docker.io" := fun he => hh (by rw [he]; decide)
        have hd : first ≠ js "docker.io" := fun he => hh (by rw [he]; decide)
        simp only [hcaps, ne_eq, not_false_eq_true, decide_true, Bool.or_true, if_true, hi, if_false,
          hd, false_and]
        rw [homeOf, if_neg hh]

/-! ## What the guard compares -/

/-- The tag the guard looks for: without a tag it is `latest`, unless there is a digest. -/
def Reading.wantedTag (r : Reading) : Option JsString :=
  if r.digest = none then some (r.tag.getD (js "latest")) else r.tag

variable {text : JsString} {r : Reading}

theorem readReference_spec (h : readReference text = some r) :
    (∀ c ∈ text, isSpace c = false) ∧ r.base = (splitTag (splitDigest text).1).1 ∧
      r.tag = (splitTag (splitDigest text).1).2 ∧ r.digest = (splitDigest text).2 ∧
      r.base ≠ [] ∧ r.tag ≠ some [] ∧ r.digest ≠ some [] := by
  unfold readReference at h
  dsimp only at h
  split_ifs at h with hno
  obtain rfl := some.inj h
  simp only [Bool.or_eq_true, decide_eq_true_eq, not_or, Bool.not_eq_true] at hno
  obtain ⟨⟨⟨hspace, hbase⟩, htag⟩, hdigest⟩ := hno
  refine ⟨fun c hc => ?_, rfl, rfl, rfl, hbase, htag, hdigest⟩
  simpa using any_eq_false.mp hspace c hc

/-- A tag that is written is not empty, and nor is the one that is meant. -/
theorem getD_latest_ne_nil {tag : Option JsString} (h : tag ≠ some []) :
    tag.getD (js "latest") ≠ [] := by
  cases tag with
  | none => decide
  | some tag => exact fun ht => h (congrArg some ht)

theorem wantedTag_ne_nil (h : readReference text = some r) : r.wantedTag ≠ some [] := by
  obtain ⟨-, -, -, -, -, htag, -⟩ := readReference_spec h
  unfold Reading.wantedTag
  split_ifs
  · exact fun he => getD_latest_ne_nil htag (some.inj he)
  · exact htag

/-- **The guard's reading of a reference.** -/
theorem parse_of_read (h : readReference text = some r) :
    parseProtectedRef text = some ⟨(home r.base).name, r.wantedTag, r.digest.map toLowerCase⟩ := by
  obtain ⟨hspace, hbase, htag, hdigest, hne, htag', hdigest'⟩ := readReference_spec h
  rw [parseProtectedRef_home hspace (hbase ▸ hne), ← hbase, ← htag, ← hdigest]
  refine congrArg some (congrArg (fun t => ParsedImageRef.mk _ t _) ?_)
  unfold Reading.wantedTag
  cases hd : r.digest with
  | none =>
    cases ht : r.tag with
    | none => rfl
    | some tag =>
      have hne : tag ≠ [] := fun he => htag' (he ▸ ht)
      simp [hne]
  | some digest =>
    have hne : digest ≠ [] := fun he => hdigest' (he ▸ hd)
    have hlower : toLowerCase digest ≠ [] := fun he => hne (map_eq_nil_iff.mp he)
    simp [hlower]

variable {ref : JsString} {n : Reading}

/-- **What the guard compares of a name.**  The tag of the reference with the tags of the image, and
its digest with the digests. -/
theorem matches_iff (hid : isImageId ref = false) (hread : readReference ref = some n)
    (image : LocalImage) :
    imageMatchesRef image.toImageLike ref = true ↔
      (∃ tag, n.wantedTag = some tag ∧ ∃ t ∈ image.repoTags, ∃ m, readReference t = some m ∧
        home m.base = home n.base ∧ m.tag.getD (js "latest") = tag) ∨
      ∃ digest, n.digest = some digest ∧ ∃ t ∈ image.repoDigests, ∃ m, readReference t = some m ∧
        home m.base = home n.base ∧ m.digest.map toLowerCase = some (toLowerCase digest) := by
  have hpart : ∀ {texts : List JsString} {part : ParsedImageRef → Option JsString} {value : JsString}
      (_ : ∀ t ∈ texts, ∃ m, readReference t = some m),
      hasPart texts (home n.base).name part value = true ↔ ∃ t ∈ texts, ∃ m,
        readReference t = some m ∧ home m.base = home n.base ∧
          part ⟨(home m.base).name, m.wantedTag, m.digest.map toLowerCase⟩ = some value := by
    intro texts part value hall
    rw [hasPart, List.any_eq_true]
    refine exists_congr fun t => and_congr_right fun ht => ?_
    obtain ⟨m, hm⟩ := hall t ht
    rw [parse_of_read hm]
    simp only [any_some, Bool.and_eq_true, decide_eq_true_eq]
    constructor
    · rintro ⟨hname, hvalue⟩
      exact ⟨m, hm, home_eq_of_name hname, hvalue⟩
    · rintro ⟨m', hm', hhome, hvalue⟩
      obtain rfl : m = m' := some.inj (hm.symm.trans hm')
      exact ⟨congrArg Repository.name hhome, hvalue⟩
  have htags := fun t ht => (image.tags t ht).imp fun m hm => hm.1
  have hdigests := fun t ht => (image.digests t ht).imp fun m hm => hm.1
  rw [imageMatchesRef, hid, if_neg Bool.false_ne_true, parse_of_read hread]
  dsimp only
  rw [Bool.or_eq_true]
  refine or_congr ?_ ?_
  · cases hw : n.wantedTag with
    | none => simp
    | some tag =>
      have hne : tag ≠ [] := fun he => wantedTag_ne_nil hread (he ▸ hw)
      simp only [any_some, ne_eq, hne, not_false_eq_true, decide_true, Bool.true_and,
        hpart htags, some.injEq, exists_eq_left']
      refine exists_congr fun t => and_congr_right fun ht => exists_congr fun m =>
        and_congr_right fun hm => and_congr_right fun _ => ?_
      obtain ⟨m', hm', hnone⟩ := image.tags t ht
      obtain rfl : m = m' := some.inj (hm.symm.trans hm')
      rw [Reading.wantedTag, if_pos hnone, some_inj]
  · cases hd : n.digest with
    | none => simp
    | some digest =>
      have hne : toLowerCase digest ≠ [] := fun he =>
        (readReference_spec hread).2.2.2.2.2.2 (map_eq_nil_iff.mp he ▸ hd)
      simp only [map_some, any_some, ne_eq, hne, not_false_eq_true, decide_true,
        Bool.true_and, hpart hdigests, some.injEq, exists_eq_left']

theorem matches_id (hid : isImageId ref = true) (image : LocalImage) :
    imageMatchesRef image.toImageLike ref = true ↔ HasId ref image := by
  rw [imageMatchesRef, if_pos hid, startsWith, decide_eq_true_eq, HasId]

section Names
variable {ref : JsString} {n : Reading} {image : LocalImage} (hid : isImageId ref = false)
  (hread : readReference ref = some n)
include hid hread

theorem matches_of_carries (h : Carries ref image) :
    imageMatchesRef image.toImageLike ref = true := by
  obtain ⟨n', hn', t, ht, m, hm, htarget⟩ := h
  obtain rfl : n = n' := some.inj (hread.symm.trans hn')
  obtain ⟨hname, hversion⟩ := Prod.mk.inj htarget
  have hhome : home m.base = home n.base := by
    rw [home_eq_homeOf, home_eq_homeOf, hname]
  refine (matches_iff hid hread image).mpr ?_
  cases hd : n.digest with
  | none =>
    rw [hd, if_pos rfl] at ht
    obtain ⟨m', hm', hnone⟩ := image.tags t ht
    obtain rfl : m = m' := some.inj (hm.symm.trans hm')
    rw [hd, hnone] at hversion
    refine .inl ⟨_, by rw [Reading.wantedTag, if_pos hd], t, ht, m, hm, hhome, ?_⟩
    exact some.inj (Prod.mk.inj hversion).1
  | some digest =>
    rw [hd, if_neg (some_ne_none digest)] at ht
    rw [hd] at hversion
    refine .inr ⟨digest, rfl, t, ht, m, hm, hhome, ?_⟩
    cases hm' : m.digest with
    | none =>
      rw [hm'] at hversion
      cases hversion
    | some digest' =>
      rw [hm'] at hversion
      rw [some.inj (Prod.mk.inj hversion).2]
      rfl

/-- A name protects images of its repository only. -/
theorem ofRepository_of_matches (h : imageMatchesRef image.toImageLike ref = true) :
    OfRepository ref image := by
  rcases (matches_iff hid hread image).mp h with ⟨tag, -, t, ht, m, hm, hhome, -⟩ |
    ⟨digest, -, t, ht, m, hm, hhome, -⟩
  · exact ⟨n, hread, t, mem_append_left _ ht, m, hm, hhome⟩
  · exact ⟨n, hread, t, mem_append_right _ ht, m, hm, hhome⟩

theorem matches_iff_bears (hdigest : n.digest = none) :
    imageMatchesRef image.toImageLike ref = true ↔ Bears ref image := by
  rw [matches_iff hid hread image]
  constructor
  · rintro (⟨tag, htag, t, ht, m, hm, hhome, hsame⟩ | ⟨digest, hsome, -⟩)
    · rw [Reading.wantedTag, if_pos hdigest] at htag
      exact ⟨n, hread, t, ht, m, hm, hhome, hsame.trans (some.inj htag).symm⟩
    · rw [hdigest] at hsome
      cases hsome
  · rintro ⟨n', hn', t, ht, m, hm, hhome, hsame⟩
    obtain rfl : n = n' := some.inj (hread.symm.trans hn')
    exact .inl ⟨_, by rw [Reading.wantedTag, if_pos hdigest], t, ht, m, hm, hhome, hsame⟩

end Names

/-! ## Ids -/

theorem eq_stripSha (ref : JsString) : ref = stripSha ref ∨ ref = js "sha256:" ++ stripSha ref := by
  unfold stripSha
  split_ifs with hstart
  · rw [startsWith, decide_eq_true_eq] at hstart
    obtain ⟨rest, rfl⟩ := hstart
    exact .inr rfl
  · exact .inl rfl

theorem digest_of_isIdPrefix (h : isIdPrefix ref = true)
    (hread : readReference ref = some n) : n.digest = none := by
  rw [isIdPrefix, Bool.and_eq_true, Bool.and_eq_true] at h
  have hdigits : cu '@' ∉ stripSha ref := fun hm =>
    absurd (all_eq_true.mp h.1.1 _ hm) (by decide)
  have hno : cu '@' ∉ ref := by
    rcases eq_stripSha ref with hplain | hsha
    · rw [hplain]
      exact hdigits
    · rw [hsha, mem_append, not_or]
      exact ⟨by decide, hdigits⟩
  obtain ⟨-, -, -, hdigest, -⟩ := readReference_spec hread
  rw [hdigest, splitDigest_of_not_mem hno]

theorem isImageId_of_full (h : isFullId ref = true) : isImageId ref = true := by
  simp only [isFullId, isIdPrefix, isImageId, Bool.and_eq_true, decide_eq_true_eq] at h ⊢
  exact ⟨⟨h.1.1.1, by omega⟩, h.1.2⟩

/-! ## The claim of the guard -/

/-- The image a reference resolves to is matched, has a reason and is kept; and an image that is
matched is of the repository of the reference, or the reference is read as an id that it has. -/
structure Protected (images : List LocalImage) (ref : JsString) : Prop where
  matching : ∀ image ∈ images, Resolves images ref image →
    imageMatchesRef image.toImageLike ref = true
  reason : ∀ image ∈ images, Resolves images ref image → ∀ sources localRegistry kind,
    (ref, kind) ∈ sources.refs → protectionReason image.toImageLike sources localRegistry ≠ none
  kept : ∀ image ∈ images, Resolves images ref image → ∀ id containers sources localRegistry kind,
    (ref, kind) ∈ sources.refs →
      remove id (images.map LocalImage.toImageLike) containers sources localRegistry ≠ .ok image.id
  apart : ∀ image ∈ images, imageMatchesRef image.toImageLike ref = true →
    OfRepository ref image ∨ ReadAsId images ref ∧ HasId ref image

/-- A text that looks like an id and is read as a name, or the other way round, makes no difference. -/
structure ReadAlike (images : List LocalImage) (ref : JsString) : Prop where
  named : isImageId ref = true → ¬ ReadAsId images ref → ∀ image ∈ images,
    (Carries ref image → HasId ref image) ∧ (HasId ref image → OfRepository ref image)
  short : isImageId ref = false → ReadAsId images ref → ∀ image ∈ images, HasId ref image →
    (∀ other ∈ images, HasId ref other → other = image) → Bears ref image

variable {image : ImageLike} {sources : Sources} {localRegistry : Bool}

theorem protectionReason_ne_none {kind : RefKind} (h : imageMatchesRef image ref = true)
    (href : (ref, kind) ∈ sources.refs) : protectionReason image sources localRegistry ≠ none := by
  intro hnone
  rw [protectionReason, or_eq_none_iff, List.findSome?_eq_none_iff] at hnone
  have hthis := hnone.2 _ href
  rw [if_pos h] at hthis
  cases hthis

/-- What is removed has no reason to be kept. -/
theorem remove_ok {id : JsString} {images : List ImageLike} {containers : List Container}
    (hmem : image ∈ images) (h : remove id images containers sources localRegistry = .ok image.id) :
    protectionReason image sources localRegistry = none := by
  unfold remove at h
  split_ifs at h
  split at h
  · rename_i found hfilter
    dsimp only at h
    split_ifs at h
    split at h
    · cases h
    · rename_i hnone
      -- the image that was found has this id, so the filter finds this image too
      have hid : found.id = image.id := Except.ok.inj h
      have hfound : found ∈ images.filter fun i => startsWith (stripSha i.id) (stripSha id) := by
        rw [hfilter]
        exact mem_singleton_self found
      have hin : image ∈ images.filter fun i => startsWith (stripSha i.id) (stripSha id) := by
        rw [mem_filter, ← hid]
        exact ⟨hmem, (mem_filter.mp hfound).2⟩
      rw [hfilter, mem_singleton] at hin
      rw [hin]
      exact hnone
  · cases h

def tagged (name : JsString) (h : ∃ r, readReference name = some r ∧ r.digest = none) : LocalImage where
  id := js "sha256:" ++ List.replicate 64 (cu 'a')
  repoTags := [name]
  repoDigests := []
  tags := fun t ht => by
    obtain rfl := List.mem_singleton.mp ht
    exact h
  digests := fun t ht => absurd ht List.not_mem_nil

end Aoox.ImageProtection
