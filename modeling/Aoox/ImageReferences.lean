import Aoox.StoredText

/-! # Image references

Three places split an image reference.  `parseImageRef` of the application reads registry,
repository, tag and digest; `parseImageRef` of the Docker page reads a canonical name, tag and
digest; `pullImage` reads what it asks the daemon for.  Each finds the tag behind the last colon
that follows the last slash, but the first takes the registry off before it and the others do not,
and the Docker page takes the parts one by one.

All three come to one reading (`repositoryOf` of the text before the tag), with two exceptions:
`pullImage` does not know the `@` of a digest, and a colon with nothing behind it is an empty tag
to two of them and `latest` to the third.
-/
namespace Aoox.ImageReferences
open JsString List

/-! ## Splitting -/

/-- `text.lastIndexOf(c)`; `none` is -1. -/
def lastIndexOf (c : CodeUnit) : JsString → Option Nat
  | [] => none
  | x :: xs =>
    match lastIndexOf c xs with
    | some i => some (i + 1)
    | none => if x = c then some 0 else none

/-- The text before the first `@`, and the digest behind it. -/
def splitDigest (rest : JsString) : JsString × Option JsString :=
  match indexOf [cu '@'] rest 0 with
  | some i => (sliceTo rest i, some (sliceFrom rest (i + 1)))
  | none => (rest, none)

/-- The text before the last colon that follows the last slash, and the tag behind it. -/
def splitTag (rest : JsString) : JsString × Option JsString :=
  match lastIndexOf (cu ':') rest with
  | some colon =>
    if (lastIndexOf (cu '/') rest).all (· < colon) then
      (sliceTo rest colon, some (sliceFrom rest (colon + 1)))
    else (rest, none)
  | none => (rest, none)

/-- A first segment that is a registry. -/
def looksLikeHost (part : JsString) : Bool :=
  includes part [cu '.'] || includes part [cu ':'] || part = js "localhost"

/-! ## The application's reading -/

structure ImageReference where
  (registry repository tag : JsString)
  digest : Option JsString

def DOCKER_HUB : JsString := js "registry-1.docker.io"

/-- `parseImageRef` of the application. -/
def parseImageRef (ref : JsString) : ImageReference :=
  let (rest, digest) := splitDigest (trim ref)
  let (registry, path) :=
    match indexOf [cu '/'] rest 0 with
    | some firstSlash =>
      if looksLikeHost (sliceTo rest firstSlash) then
        (sliceTo rest firstSlash, sliceFrom rest (firstSlash + 1))
      else (DOCKER_HUB, rest)
    | none => (DOCKER_HUB, rest)
  let registry :=
    if registry = js "docker.io" || registry = js "index.docker.io" then DOCKER_HUB else registry
  let (path, tag) := splitTag path
  { registry := registry
    repository := if registry = DOCKER_HUB && !includes path [cu '/'] then js "library/" ++ path else path
    tag := tag.getD (js "latest")
    digest := digest }

/-- The reference with its tag replaced; a digest is dropped. -/
def withTag (ref tag : JsString) : JsString :=
  (splitTag (splitDigest (trim ref)).1).1 ++ cu ':' :: tag

/-! ## The reading of the Docker page -/

structure ParsedImageRef where
  /-- `host/path`; Docker Hub is `docker.io/library/nginx`. -/
  name : JsString
  (tag digest : Option JsString)

def HUB_HOSTS : List JsString := [js "docker.io", js "index.docker.io", js "registry-1.docker.io"]

/-- Host and remaining parts. -/
def takeHost : List JsString → JsString × List JsString
  | first :: second :: parts =>
    if looksLikeHost first then
      (if toLowerCase first ∈ HUB_HOSTS then js "docker.io" else toLowerCase first, second :: parts)
    else (js "docker.io", first :: second :: parts)
  | parts => (js "docker.io", parts)

/-- `parseImageRef` of the Docker page; `none` when it cannot be an image reference. -/
def parseProtectedRef (ref : JsString) : Option ParsedImageRef :=
  let rest := trim ref
  if rest = [] || rest.any isSpace then none
  else
    let (rest, digest) := splitDigest rest
    let (rest, tag) := splitTag rest
    if rest = [] then none
    else
      let digest := digest.map toLowerCase
      let (host, parts) := takeHost (split rest [cu '/'])
      let parts := if host = js "docker.io" && parts.length = 1 then js "library" :: parts else parts
      some
        { name := host ++ cu '/' :: join parts [cu '/']
          -- an empty text is false too
          tag := if tag.getD [] = [] && digest.getD [] = [] then some (js "latest") else tag
          digest := digest }

/-! ## What the daemon is asked for -/

structure PullRequest where
  (fromImage tag : JsString)
  deriving DecidableEq

/-- The query of `pullImage`. -/
def pullImage (ref : JsString) : PullRequest where
  fromImage := (splitTag ref).1
  tag := (splitTag ref).2.getD (js "latest")

/-! ## The reference grammar -/

/-- `[a-z0-9]`. -/
def isNameUnit (c : CodeUnit) : Bool := (cu 'a' ≤ c && c ≤ cu 'z') || isDigit c

/-- Also dot, underscore, hyphen, slash, colon and `@`. -/
def isRefUnit (c : CodeUnit) : Bool :=
  isNameUnit c || c ∈ [cu '.', cu '_', cu '-', cu '/', cu ':', cu '@']

/-- What the application DTO accepts. -/
def accepted (ref : JsString) : Bool :=
  ref.length ≤ 300 &&
    match ref with
    | [] => false
    | c :: cs => isNameUnit c && cs.all isRefUnit

/-! ## One reading -/

structure Repository where
  (registry path : JsString)

/-- On Docker Hub a name of one segment is an official image. -/
def official (registry path : JsString) : Repository :=
  if registry = DOCKER_HUB ∧ cu '/' ∉ path then ⟨registry, js "library/" ++ path⟩
  else ⟨registry, path⟩

def registryOf (host : JsString) : JsString := if host ∈ HUB_HOSTS then DOCKER_HUB else host

/-- The repository a name without tag and digest stands for: a first segment with a dot, a colon
or `localhost` is the registry. -/
def repositoryOf (name : JsString) : Repository :=
  match indexOf [cu '/'] name 0 with
  | some i =>
    if looksLikeHost (sliceTo name i) then official (registryOf (sliceTo name i)) (sliceFrom name (i + 1))
    else official DOCKER_HUB name
  | none => official DOCKER_HUB name

/-- `host/path`, with Docker Hub by its short name. -/
def Repository.name (r : Repository) : JsString :=
  (if r.registry = DOCKER_HUB then js "docker.io" else r.registry) ++ cu '/' :: r.path

/-! ## Where the splitters cut -/

variable {c : CodeUnit} {text : JsString}

theorem lastIndexOf_eq_none (h : c ∉ text) : lastIndexOf c text = none := by
  induction text with
  | nil => rfl
  | cons x xs ih =>
    rw [mem_cons, not_or] at h
    rw [lastIndexOf, ih h.2]
    exact if_neg (Ne.symm h.1)

theorem lastIndexOf_append {b : JsString} (h : c ∉ b) (a : JsString) :
    lastIndexOf c (a ++ c :: b) = some a.length := by
  induction a with
  | nil =>
    rw [nil_append, lastIndexOf, lastIndexOf_eq_none h]
    exact if_pos rfl
  | cons x a ih => rw [cons_append, lastIndexOf, ih, length_cons]

theorem exists_last (c : CodeUnit) (text : JsString) :
    c ∉ text ∨ ∃ a b, text = a ++ c :: b ∧ c ∉ b := by
  induction text with
  | nil => exact .inl (by simp)
  | cons x xs ih =>
    rcases ih with hnot | ⟨a, b, rfl, hb⟩
    · by_cases hx : x = c
      · subst hx
        exact .inr ⟨[], xs, rfl, hnot⟩
      · exact .inl (by simp [hnot, Ne.symm hx])
    · exact .inr ⟨x :: a, b, rfl, hb⟩

theorem exists_first (c : CodeUnit) (text : JsString) :
    c ∉ text ∨ ∃ a b, text = a ++ c :: b ∧ c ∉ a := by
  by_cases h : c ∈ text
  · obtain ⟨a, b, rfl, ha⟩ := eq_append_cons_of_mem h
    exact .inr ⟨a, b, rfl, ha⟩
  · exact .inl h

theorem splitDigest_append {a : JsString} (h : cu '@' ∉ a) (b : JsString) :
    splitDigest (a ++ cu '@' :: b) = (a, some b) := by
  simp [splitDigest, indexOf_unit h, sliceTo, sliceFrom]

theorem splitDigest_of_not_mem {a : JsString} (h : cu '@' ∉ a) : splitDigest a = (a, none) := by
  rw [splitDigest, indexOf_unit_eq_none h]

/-- **A tag is the text behind the last colon when no slash follows.** -/
theorem splitTag_append {tag : JsString} (hc : cu ':' ∉ tag) (hs : cu '/' ∉ tag) (base : JsString) :
    splitTag (base ++ cu ':' :: tag) = (base, some tag) := by
  have hslash : (lastIndexOf (cu '/') (base ++ cu ':' :: tag)).all (· < base.length) = true := by
    rcases exists_last (cu '/') base with hb | ⟨x, y, rfl, hy⟩
    · have hnot : cu '/' ∉ base ++ cu ':' :: tag := by
        simp only [mem_append, mem_cons, not_or]
        exact ⟨hb, by decide, hs⟩
      rw [lastIndexOf_eq_none hnot]
      rfl
    · have hnot : cu '/' ∉ y ++ cu ':' :: tag := by
        simp only [mem_append, mem_cons, not_or]
        exact ⟨hy, by decide, hs⟩
      rw [append_assoc, cons_append, lastIndexOf_append hnot]
      simp
  rw [splitTag, lastIndexOf_append hc]
  simp only [hslash, if_true]
  simp [sliceTo, sliceFrom]

/-- Without a colon behind the last slash there is no tag. -/
theorem splitTag_eq_none (h : ∀ a b, text = a ++ cu ':' :: b → cu '/' ∈ b) :
    splitTag text = (text, none) := by
  rw [splitTag]
  rcases exists_last (cu ':') text with hc | ⟨a, b, rfl, hb⟩
  · rw [lastIndexOf_eq_none hc]
  · rw [lastIndexOf_append hb]
    obtain ⟨x, y, rfl, hy⟩ := ((exists_last (cu '/') b).resolve_left fun hn => hn (h a b rfl))
    rw [← cons_append, ← append_assoc, lastIndexOf_append hy]
    simp

theorem splitTag_cases (text : JsString) :
    (∃ base tag, text = base ++ cu ':' :: tag ∧ cu ':' ∉ tag ∧ cu '/' ∉ tag) ∨
      ∀ a b, text = a ++ cu ':' :: b → cu '/' ∈ b := by
  by_cases h : ∀ a b, text = a ++ cu ':' :: b → cu '/' ∈ b
  · exact .inr h
  · push Not at h
    obtain ⟨a, b, rfl, hs⟩ := h
    rcases exists_last (cu ':') b with hb | ⟨x, y, rfl, hy⟩
    · exact .inl ⟨a, b, rfl, hb, hs⟩
    · refine .inl ⟨a ++ cu ':' :: x, y, by simp, hy, fun hm => hs ?_⟩
      exact mem_append_right _ (mem_cons_of_mem _ hm)

/-- **A segment in front does not move the tag.** -/
theorem splitTag_slash (a b : JsString) :
    splitTag (a ++ cu '/' :: b) = (a ++ cu '/' :: (splitTag b).1, (splitTag b).2) := by
  rcases splitTag_cases b with ⟨base, tag, rfl, hc, hs⟩ | h
  · rw [splitTag_append hc hs, show a ++ cu '/' :: (base ++ cu ':' :: tag) =
      (a ++ cu '/' :: base) ++ cu ':' :: tag by simp, splitTag_append hc hs]
  · rw [splitTag_eq_none h, splitTag_eq_none]
    intro x y hxy
    rcases append_eq_append_iff.mp hxy with ⟨z, rfl, hz⟩ | ⟨z, rfl, hz⟩
    · cases z with
      | nil => exact absurd (List.cons.inj hz).1 (by decide)
      | cons u z =>
        obtain ⟨-, hz⟩ := List.cons.inj hz
        exact h z y hz
    · cases z with
      | nil => exact absurd (List.cons.inj hz).1 (by decide)
      | cons u z =>
        obtain ⟨-, rfl⟩ := List.cons.inj hz
        simp

theorem slash_mem_splitTag : cu '/' ∈ (splitTag text).1 ↔ cu '/' ∈ text := by
  rcases splitTag_cases text with ⟨base, tag, rfl, hc, hs⟩ | h
  · rw [splitTag_append hc hs, mem_append, mem_cons]
    have hne : cu '/' ≠ cu ':' := by decide
    tauto
  · rw [splitTag_eq_none h]

/-! ## The two parsers -/

theorem includes_unit : includes text [c] = true ↔ c ∈ text := by
  rw [includes_iff (cons_ne_nil _ _)]
  exact singleton_infix_iff _ _

theorem repositoryOf_slash {first : JsString} (h : cu '/' ∉ first) (path : JsString) :
    repositoryOf (first ++ cu '/' :: path) =
      if looksLikeHost first then official (registryOf first) path
      else official DOCKER_HUB (first ++ cu '/' :: path) := by
  simp [repositoryOf, indexOf_unit h, sliceTo, sliceFrom]

variable {name : JsString}

theorem repositoryOf_of_not_mem (h : cu '/' ∉ name) :
    repositoryOf name = official DOCKER_HUB name := by
  rw [repositoryOf, indexOf_unit_eq_none h]

theorem official_eq (registry path : JsString) :
    official registry path = ⟨registry,
      if registry = DOCKER_HUB && !includes path [cu '/'] then js "library/" ++ path else path⟩ := by
  rw [official]
  have hiff : (registry = DOCKER_HUB && !includes path [cu '/']) = true ↔
      registry = DOCKER_HUB ∧ cu '/' ∉ path := by
    rw [Bool.and_eq_true, decide_eq_true_iff, Bool.not_eq_true', ← Bool.not_eq_true, includes_unit]
  by_cases h : registry = DOCKER_HUB ∧ cu '/' ∉ path
  · rw [if_pos h, if_pos (hiff.mpr h)]
  · rw [if_neg h, if_neg fun hb => h (hiff.mp hb)]

theorem registryOf_eq (host : JsString) :
    (if host = js "docker.io" || host = js "index.docker.io" then DOCKER_HUB else host) =
      registryOf host := by
  rw [registryOf, HUB_HOSTS]
  by_cases h : host = DOCKER_HUB
  · subst h
    simp [DOCKER_HUB]
  · have h' : host ≠ js "registry-1.docker.io" := h
    simp [h']

/-- **The application reads the text before the tag as the name of a repository.** -/
theorem parseImageRef_eq (ref : JsString) :
    parseImageRef ref =
      let rest := (splitDigest (trim ref)).1
      { registry := (repositoryOf (splitTag rest).1).registry
        repository := (repositoryOf (splitTag rest).1).path
        tag := (splitTag rest).2.getD (js "latest")
        digest := (splitDigest (trim ref)).2 } := by
  rw [parseImageRef]
  generalize splitDigest (trim ref) = cut
  obtain ⟨rest, digest⟩ := cut
  simp only
  have hub : registryOf DOCKER_HUB = DOCKER_HUB := by simp [registryOf, HUB_HOSTS, DOCKER_HUB]
  rcases exists_first (cu '/') rest with hno | ⟨first, path, rfl, hfirst⟩
  · rw [indexOf_unit_eq_none hno]
    simp only [registryOf_eq, hub]
    rw [repositoryOf_of_not_mem fun h => hno (slash_mem_splitTag.mp h), official_eq]
    simp only [decide_true]
  · rw [indexOf_unit hfirst, splitTag_slash, repositoryOf_slash hfirst]
    have hdrop : (first ++ cu '/' :: path).drop (first.length + 1) = path := by simp
    simp only [sliceTo, sliceFrom, take_left, hdrop]
    by_cases hh : looksLikeHost first = true
    · simp only [hh, if_true, registryOf_eq, official_eq]
    · simp only [hh, Bool.false_eq_true, if_false, registryOf_eq, hub, splitTag_slash, official_eq]

theorem name_official_hub (path : JsString) :
    (official DOCKER_HUB path).name =
      js "docker.io/" ++ if cu '/' ∈ path then path else js "library/" ++ path := by
  have hdocker : js "docker.io/" = js "docker.io" ++ [cu '/'] := rfl
  rw [official]
  by_cases h : cu '/' ∈ path
  · simp [h, Repository.name, hdocker]
  · simp [h, Repository.name, hdocker]

theorem name_official {registry : JsString} (h : registry ≠ DOCKER_HUB) (path : JsString) :
    (official registry path).name = registry ++ cu '/' :: path := by
  rw [official, if_neg fun hand => h hand.1, Repository.name, if_neg h]

/-- Host and parts as the Docker page puts them together again. -/
def nameOf (host : JsString) (parts : List JsString) : JsString :=
  host ++ cu '/' :: join
    (if host = js "docker.io" && parts.length = 1 then js "library" :: parts else parts) [cu '/']

theorem join_library (path : JsString) :
    join (js "library" :: split path [cu '/']) [cu '/'] = js "library/" ++ path := by
  obtain ⟨p, ps, hps⟩ := exists_cons_of_ne_nil (splitGo_ne_nil [cu '/'] 0 path)
  have hjoin := join_split_unit (cu '/') path
  rw [split, hps] at hjoin ⊢
  rw [← hjoin, join, intercalate_cons_cons, show js "library/" = js "library" ++ [cu '/'] from rfl]
  rfl

theorem nameOf_docker (path : JsString) :
    nameOf (js "docker.io") (split path [cu '/']) = (official DOCKER_HUB path).name := by
  have hlen : (split path [cu '/']).length = 1 ↔ cu '/' ∉ path := by
    rw [length_split_unit, ← count_eq_zero]
    omega
  have hdocker : js "docker.io/" = js "docker.io" ++ [cu '/'] := rfl
  rw [nameOf, name_official_hub, hdocker]
  by_cases h : cu '/' ∈ path
  · have hne : ¬ (split path [cu '/']).length = 1 := fun hl => hlen.mp hl h
    simp only [hne, h, decide_true, decide_false, Bool.and_false, Bool.false_eq_true, if_false, if_true,
      join_split_unit, append_assoc, singleton_append]
  · simp only [hlen.mpr h, h, decide_true, Bool.and_true, if_true, if_false, join_library,
      append_assoc, singleton_append]

theorem nameOf_other {host : JsString} (h : host ≠ js "docker.io") (path : JsString) :
    nameOf host (split path [cu '/']) = host ++ cu '/' :: path := by
  simp only [nameOf, h, decide_false, Bool.false_and, Bool.false_eq_true, if_false, join_split_unit]

/-- The registry's repository that a name stands for, however the registry is spelled. -/
def home (name : JsString) : Repository :=
  match indexOf [cu '/'] name 0 with
  | some i =>
    if looksLikeHost (sliceTo name i) then
      official (registryOf (toLowerCase (sliceTo name i))) (sliceFrom name (i + 1))
    else official DOCKER_HUB name
  | none => official DOCKER_HUB name

theorem home_slash {first : JsString} (h : cu '/' ∉ first) (path : JsString) :
    home (first ++ cu '/' :: path) =
      if looksLikeHost first then official (registryOf (toLowerCase first)) path
      else official DOCKER_HUB (first ++ cu '/' :: path) := by
  simp [home, indexOf_unit h, sliceTo, sliceFrom]

theorem home_of_not_mem (h : cu '/' ∉ name) : home name = official DOCKER_HUB name := by
  rw [home, indexOf_unit_eq_none h]

theorem home_of_lower (hlower : toLowerCase name = name) : home name = repositoryOf name := by
  rcases exists_first (cu '/') name with hno | ⟨first, path, rfl, hfirst⟩
  · rw [home_of_not_mem hno, repositoryOf_of_not_mem hno]
  · have hlf : toLowerCase first = first := by
      rw [toLowerCase, map_append] at hlower
      exact append_inj_left hlower (length_map _)
    rw [home_slash hfirst, repositoryOf_slash hfirst, hlf]

/-- **Part by part comes to the same repository.** -/
theorem nameOf_home (name : JsString) :
    nameOf (takeHost (split name [cu '/'])).1 (takeHost (split name [cu '/'])).2 =
      (home name).name := by
  rcases exists_first (cu '/') name with hno | ⟨first, path, rfl, hfirst⟩
  · have htake : takeHost (split name [cu '/']) = (js "docker.io", split name [cu '/']) := by
      rw [split_of_not_mem hno]
      rfl
    rw [htake, nameOf_docker, home_of_not_mem hno]
  · have hsplit : split (first ++ cu '/' :: path) [cu '/'] = first :: split path [cu '/'] := by
      rw [split_append_unit, split_of_not_mem hfirst]
      rfl
    have htake : takeHost (first :: split path [cu '/']) =
        if looksLikeHost first then
          (if toLowerCase first ∈ HUB_HOSTS then js "docker.io" else toLowerCase first,
            split path [cu '/'])
        else (js "docker.io", first :: split path [cu '/']) := by
      obtain ⟨p, ps, hps⟩ := exists_cons_of_ne_nil (splitGo_ne_nil [cu '/'] 0 path)
      rw [split, hps, takeHost]
    rw [home_slash hfirst, hsplit, htake]
    by_cases hh : looksLikeHost first = true
    · rw [if_pos hh, if_pos hh, registryOf]
      by_cases hhub : toLowerCase first ∈ HUB_HOSTS
      · rw [if_pos hhub, if_pos hhub, nameOf_docker]
      · have hne : toLowerCase first ≠ DOCKER_HUB :=
          fun he => hhub (by simp [he, HUB_HOSTS, DOCKER_HUB])
        have hne' : toLowerCase first ≠ js "docker.io" := fun he => hhub (by simp [he, HUB_HOSTS])
        rw [if_neg hhub, if_neg hhub, nameOf_other hne', name_official hne]
    · rw [if_neg hh, if_neg hh, ← hsplit, nameOf_docker]

variable {ref : JsString}

/-- **The Docker page reads the text before the tag as the name of the repository.** -/
theorem parseProtectedRef_home (hspace : ∀ c ∈ ref, isSpace c = false)
    (hbase : (splitTag (splitDigest ref).1).1 ≠ []) :
    parseProtectedRef ref =
      let tag := (splitTag (splitDigest ref).1).2
      let digest := (splitDigest ref).2.map toLowerCase
      some
        { name := (home (splitTag (splitDigest ref).1).1).name
          tag := if tag.getD [] = [] && digest.getD [] = [] then some (js "latest") else tag
          digest := digest } := by
  have htrim : trim ref = ref :=
    trim_eq_self (fun c hc => hspace c (List.mem_of_head? hc))
      fun c hc => hspace c (List.mem_of_getLast? hc)
  have hne : ref ≠ [] := fun he => hbase (by rw [he]; rfl)
  have hany : ref.any isSpace = false := by
    rw [any_eq_false]
    exact fun c hc => by simp [hspace c hc]
  have hguard : (ref = [] || ref.any isSpace) = false := by simp [hne, hany]
  rw [parseProtectedRef, htrim]
  simp only [hguard, hbase, Bool.false_eq_true, if_false]
  refine congrArg some ?_
  rw [← nameOf_home]
  rfl

/-- In lower case that is the repository the application reads. -/
theorem parseProtectedRef_eq (hspace : ∀ c ∈ ref, isSpace c = false)
    (hbase : (splitTag (splitDigest ref).1).1 ≠ [])
    (hlower : toLowerCase (splitTag (splitDigest ref).1).1 = (splitTag (splitDigest ref).1).1) :
    parseProtectedRef ref =
      let tag := (splitTag (splitDigest ref).1).2
      let digest := (splitDigest ref).2.map toLowerCase
      some
        { name := (repositoryOf (splitTag (splitDigest ref).1).1).name
          tag := if tag.getD [] = [] && digest.getD [] = [] then some (js "latest") else tag
          digest := digest } := by
  rw [parseProtectedRef_home hspace hbase, home_of_lower hlower]

/-! ## Accepted references -/

theorem isRefUnit_bounds (h : isRefUnit c = true) :
    45 ≤ c.toNat ∧ c.toNat ≤ 122 ∧ ¬ (65 ≤ c.toNat ∧ c.toNat ≤ 90) := by
  simp only [isRefUnit, isNameUnit, isDigit, Bool.or_eq_true, Bool.and_eq_true, decide_eq_true_eq,
    UInt16.le_iff_toNat_le, mem_cons, not_mem_nil, or_false] at h
  rcases h with (⟨h1, h2⟩ | ⟨h1, h2⟩) | rfl | rfl | rfl | rfl | rfl | rfl
  · have ha : (cu 'a').toNat = 97 := rfl
    have hz : (cu 'z').toNat = 122 := rfl
    omega
  · have h0 : (cu '0').toNat = 48 := rfl
    have h9 : (cu '9').toNat = 57 := rfl
    omega
  all_goals decide

theorem isSpace_of_isRefUnit (h : isRefUnit c = true) : isSpace c = false := by
  have hb := isRefUnit_bounds h
  rw [← Bool.not_eq_true]
  intro hs
  simp only [isSpace, Bool.or_eq_true, Bool.and_eq_true, decide_eq_true_eq, beq_iff_eq,
    UInt16.le_iff_toNat_le, ← UInt16.toNat_inj] at hs
  simp only [UInt16.reduceToNat] at hs
  omega

theorem toLowerCase_of_isRefUnit (h : ∀ c ∈ text, isRefUnit c = true) :
    toLowerCase text = text := by
  rw [toLowerCase]
  conv_rhs => rw [← map_id text]
  refine map_congr_left fun c hc => if_neg fun hup => ?_
  have hb := isRefUnit_bounds (h c hc)
  rw [Bool.and_eq_true, decide_eq_true_iff, decide_eq_true_iff, UInt16.le_iff_toNat_le,
    UInt16.le_iff_toNat_le] at hup
  exact hb.2.2 hup

theorem isPrefix_splitDigest (text : JsString) : (splitDigest text).1 <+: text := by
  rcases exists_first (cu '@') text with h | ⟨a, b, rfl, ha⟩
  · rw [splitDigest_of_not_mem h]
  · rw [splitDigest_append ha]
    exact prefix_append _ _

theorem isPrefix_splitTag (text : JsString) : (splitTag text).1 <+: text := by
  rcases splitTag_cases text with ⟨base, tag, rfl, hc, hs⟩ | h
  · rw [splitTag_append hc hs]
    exact prefix_append _ _
  · rw [splitTag_eq_none h]

structure Accepted (ref : JsString) : Prop where
  units : ∀ c ∈ ref, isRefUnit c = true
  first : ∃ c cs, ref = c :: cs ∧ c ≠ cu '@' ∧ c ≠ cu ':'

theorem Accepted.of (h : accepted ref = true) : Accepted ref := by
  cases ref with
  | nil => cases h
  | cons c cs =>
    obtain ⟨hc, hcs⟩ := Bool.and_eq_true_iff.mp (Bool.and_eq_true_iff.mp h).2
    refine ⟨fun x hx => ?_, c, cs, rfl, ?_, ?_⟩
    · rcases mem_cons.mp hx with rfl | hx
      · rw [isRefUnit, hc, Bool.true_or]
      · exact all_eq_true.mp hcs x hx
    · rintro rfl
      exact absurd hc (by decide)
    · rintro rfl
      exact absurd hc (by decide)

/-- The name of an accepted reference. -/
def baseOf (ref : JsString) : JsString := (splitTag (splitDigest ref).1).1

theorem Accepted.base_ne_nil (h : Accepted ref) : baseOf ref ≠ [] := by
  obtain ⟨c, cs, rfl, hat, hcolon⟩ := h.first
  have hrest : ∃ ds, (splitDigest (c :: cs)).1 = c :: ds := by
    rcases exists_first (cu '@') (c :: cs) with hno | ⟨a, b, hab, ha⟩
    · exact ⟨cs, by rw [splitDigest_of_not_mem hno]⟩
    · rw [hab, splitDigest_append ha]
      cases a with
      | nil => exact absurd (List.cons.inj hab).1 hat
      | cons d ds => exact ⟨ds, by rw [(List.cons.inj hab).1]⟩
  obtain ⟨ds, hds⟩ := hrest
  rw [baseOf, hds]
  intro hnil
  rcases splitTag_cases (c :: ds) with ⟨base, tag, heq, hc, hs⟩ | hno
  · rw [heq, splitTag_append hc hs] at hnil
    rw [show base = [] from hnil] at heq
    exact hcolon (List.cons.inj heq).1
  · rw [splitTag_eq_none hno] at hnil
    cases hnil

theorem Accepted.base_units (h : Accepted ref) :
    ∀ c ∈ baseOf ref, isRefUnit c = true := fun c hc =>
  h.units c ((isPrefix_splitDigest ref).subset ((isPrefix_splitTag _).subset hc))

theorem Accepted.trim (h : Accepted ref) : JsString.trim ref = ref :=
  trim_eq_self (fun c hc => isSpace_of_isRefUnit (h.units c (List.mem_of_head? hc)))
    fun c hc => isSpace_of_isRefUnit (h.units c (List.mem_of_getLast? hc))

/-! ## Where they agree -/

/-- A repository by its canonical name, and the tag or digest in it. -/
structure Target where
  (name version : JsString)

def PullRequest.target (r : PullRequest) : Target := ⟨(repositoryOf r.fromImage).name, r.tag⟩

def ImageReference.target (r : ImageReference) : Target :=
  ⟨(Repository.mk r.registry r.repository).name, r.digest.getD r.tag⟩

def ParsedImageRef.target (r : ParsedImageRef) : Target := ⟨r.name, r.digest.getD (r.tag.getD [])⟩

/-- The daemon is asked for what the two parsers report. -/
structure Agree (ref : JsString) : Prop where
  pull : (pullImage ref).target = (parseImageRef ref).target
  page : (parseProtectedRef ref).map ParsedImageRef.target = some (parseImageRef ref).target

/-- Every tag of a registry is one. -/
structure IsTag (tag : JsString) : Prop where
  nonempty : tag ≠ []
  units : ∀ c ∈ tag, c ≠ cu '/' ∧ c ≠ cu ':' ∧ c ≠ cu '@' ∧ isSpace c = false

/-- The reference with another tag is read as that tag of the same repository. -/
structure Retagged (ref tag : JsString) : Prop where
  application : parseImageRef (withTag ref tag) =
    { parseImageRef ref with tag := tag, digest := none }
  page : parseProtectedRef (withTag ref tag) =
    (parseProtectedRef ref).map fun r => { r with tag := some tag, digest := none }

theorem at_mem_name : cu '@' ∈ (repositoryOf name).name ↔ cu '@' ∈ name := by
  have hhub : ∀ path : JsString, cu '@' ∈ (official DOCKER_HUB path).name ↔ cu '@' ∈ path := by
    intro path
    have hd : cu '@' ∉ js "docker.io/" := by decide
    have hl : cu '@' ∉ js "library/" := by decide
    rw [name_official_hub, mem_append]
    split
    · simp [hd]
    · simp [hd, hl]
  rcases exists_first (cu '/') name with hno | ⟨first, path, rfl, hfirst⟩
  · rw [repositoryOf_of_not_mem hno, hhub]
  · rw [repositoryOf_slash hfirst]
    split
    · by_cases hin : first ∈ HUB_HOSTS
      · have hat : cu '@' ∉ first := by
          have hall : ∀ host ∈ HUB_HOSTS, cu '@' ∉ host := by decide
          exact hall first hin
        have hne : cu '@' ≠ cu '/' := by decide
        rw [registryOf, if_pos hin, hhub]
        simp [hat, hne]
      · have hne : first ≠ DOCKER_HUB := fun he => hin (by simp [he, HUB_HOSTS, DOCKER_HUB])
        rw [registryOf, if_neg hin, name_official hne]
    · rw [hhub]

/-- **With a digest the daemon is asked for something else.** -/
theorem pull_ne_of_digest (h : Accepted ref) (hat : cu '@' ∈ ref) :
    (pullImage ref).target ≠ (parseImageRef ref).target := by
  obtain ⟨a, b, rfl, ha⟩ := (exists_first (cu '@') ref).resolve_left fun hn => hn hat
  intro heq
  rw [parseImageRef_eq, h.trim, splitDigest_append ha] at heq
  have hname : (repositoryOf (pullImage (a ++ cu '@' :: b)).fromImage).name =
      (repositoryOf (splitTag a).1).name := congrArg Target.name heq
  have hversion : (pullImage (a ++ cu '@' :: b)).tag = b := congrArg Target.version heq
  -- the parsers' name has no `@`
  have hnot : cu '@' ∉ (pullImage (a ++ cu '@' :: b)).fromImage := by
    rw [← at_mem_name, hname, at_mem_name]
    exact fun hm => ha ((isPrefix_splitTag a).subset hm)
  rcases splitTag_cases (a ++ cu '@' :: b) with ⟨base, tag, hsplit, hc, hs⟩ | hno
  · rw [pullImage, hsplit, splitTag_append hc hs] at hversion
    obtain rfl : tag = b := hversion
    have hlen : a.length = base.length := by
      have := congrArg List.length hsplit
      simp only [length_append, length_cons] at this
      omega
    have hcons := (append_inj hsplit hlen).2
    exact absurd (List.cons.inj hcons).1 (by decide)
  · rw [pullImage, splitTag_eq_none hno] at hnot
    exact hnot hat

/-- **Without one the three readings are the same**, up to an empty tag. -/
theorem targets_of_no_digest (h : Accepted ref) (hat : cu '@' ∉ ref) :
    (pullImage ref).target = (parseImageRef ref).target ∧
      (parseProtectedRef ref).map ParsedImageRef.target = some
        ⟨(parseImageRef ref).target.name,
          if (splitTag ref).2.getD [] = [] then js "latest" else (splitTag ref).2.getD []⟩ := by
  have hsplit := splitDigest_of_not_mem hat
  have hbase : baseOf ref = (splitTag ref).1 := by rw [baseOf, hsplit]
  constructor
  · rw [parseImageRef_eq, h.trim, hsplit]
    rfl
  · rw [parseImageRef_eq, h.trim, parseProtectedRef_eq
      (fun c hc => isSpace_of_isRefUnit (h.units c hc)) h.base_ne_nil
      (toLowerCase_of_isRefUnit h.base_units), hsplit]
    by_cases ht : (splitTag ref).2.getD [] = []
    · simp [ParsedImageRef.target, ImageReference.target, ht]
    · simp [ParsedImageRef.target, ImageReference.target, ht]

/-- A reference that ends in a colon has an empty tag. -/
theorem splitTag_empty_iff : (splitTag ref).2 = some [] ↔ ref.getLast? = some (cu ':') := by
  rcases splitTag_cases ref with ⟨base, tag, rfl, hc, hs⟩ | hno
  · rw [splitTag_append hc hs]
    cases tag with
    | nil => simp
    | cons c cs =>
      have hne : (c :: cs).getLast? ≠ some (cu ':') := fun h => hc (List.mem_of_getLast? h)
      have hlast : (base ++ cu ':' :: c :: cs).getLast? = (c :: cs).getLast? := by
        rw [getLast?_append, getLast?_cons_cons]
        exact Option.or_of_isSome (by simp)
      simp [hlast, hne]
  · rw [splitTag_eq_none hno]
    refine iff_of_false (by simp) fun hlast => ?_
    obtain ⟨a, rfl⟩ := getLast?_eq_some_iff.mp hlast
    exact absurd (hno a [] rfl) (by simp)

/-- **Another tag of the same repository is read as that.** -/
theorem retagged {tag : JsString} (h : Accepted ref) (ht : IsTag tag) : Retagged ref tag := by
  have hcolon : cu ':' ∉ tag := fun hm => (ht.units _ hm).2.1 rfl
  have hslash : cu '/' ∉ tag := fun hm => (ht.units _ hm).1 rfl
  have hat : cu '@' ∉ tag := fun hm => (ht.units _ hm).2.2.1 rfl
  have hwith : withTag ref tag = baseOf ref ++ cu ':' :: tag := by rw [withTag, h.trim, baseOf]
  have hbaseAt : cu '@' ∉ baseOf ref := fun hm => by
    have hm' := (isPrefix_splitTag _).subset hm
    rcases exists_first (cu '@') ref with hno | ⟨a, b, hab, ha⟩
    · rw [splitDigest_of_not_mem hno] at hm'
      exact hno hm'
    · rw [hab, splitDigest_append ha] at hm'
      exact ha hm'
  have hnot : cu '@' ∉ withTag ref tag := by
    have hne : cu '@' ≠ cu ':' := by decide
    rw [hwith, mem_append, mem_cons]
    tauto
  have hspace : ∀ c ∈ withTag ref tag, isSpace c = false := by
    intro c hc
    rw [hwith] at hc
    rcases mem_append.mp hc with hc | hc
    · exact isSpace_of_isRefUnit (h.base_units c hc)
    · rcases mem_cons.mp hc with rfl | hc
      · rfl
      · exact (ht.units c hc).2.2.2
  have htrim : JsString.trim (withTag ref tag) = withTag ref tag :=
    trim_eq_self (fun c hc => hspace c (List.mem_of_head? hc))
      fun c hc => hspace c (List.mem_of_getLast? hc)
  have hsplit : splitTag (splitDigest (withTag ref tag)).1 = (baseOf ref, some tag) := by
    rw [splitDigest_of_not_mem hnot, hwith, splitTag_append hcolon hslash]
  have hdigest : (splitDigest (withTag ref tag)).2 = none := by rw [splitDigest_of_not_mem hnot]
  constructor
  · rw [parseImageRef_eq, parseImageRef_eq, htrim, h.trim]
    simp only [hsplit, hdigest]
    rfl
  · rw [parseProtectedRef_eq hspace (by rw [hsplit]; exact h.base_ne_nil)
      (by rw [hsplit]; exact toLowerCase_of_isRefUnit h.base_units),
      parseProtectedRef_eq (fun c hc => isSpace_of_isRefUnit (h.units c hc)) h.base_ne_nil
        (toLowerCase_of_isRefUnit h.base_units)]
    simp [hsplit, hdigest, ht.nonempty, baseOf]

/-- **The splitters agree on an accepted reference, and on it with another tag, if and only if** it
has no digest and does not end in a colon. -/
theorem agree_iff (ref : JsString) (h : accepted ref = true) :
    (Agree ref ∧ ∀ tag, IsTag tag → Retagged ref tag) ↔
      cu '@' ∉ ref ∧ ref.getLast? ≠ some (cu ':') := by
  have hacc := Accepted.of h
  constructor
  · rintro ⟨hagree, -⟩
    have hat : cu '@' ∉ ref := fun hm => pull_ne_of_digest hacc hm hagree.pull
    refine ⟨hat, fun hlast => ?_⟩
    obtain ⟨-, hpage⟩ := targets_of_no_digest hacc hat
    have hempty := splitTag_empty_iff.mpr hlast
    have hversion := congrArg Target.version (Option.some.inj (hpage.symm.trans hagree.page))
    rw [parseImageRef_eq, hacc.trim, splitDigest_of_not_mem hat] at hversion
    simp [ImageReference.target, hempty] at hversion
    exact absurd hversion (by decide)
  · rintro ⟨hat, hlast⟩
    obtain ⟨hpull, hpage⟩ := targets_of_no_digest hacc hat
    refine ⟨⟨hpull, ?_⟩, fun tag ht => retagged hacc ht⟩
    rw [hpage, parseImageRef_eq, hacc.trim, splitDigest_of_not_mem hat]
    have hne : (splitTag ref).2 ≠ some [] := fun he => hlast (splitTag_empty_iff.mp he)
    cases ht : (splitTag ref).2 with
    | none => simp [ImageReference.target, ht]
    | some tag =>
      have htag : tag ≠ [] := fun he => hne (he ▸ ht)
      simp [ImageReference.target, ht, htag]

/-- A reference with a registry, a port and a tag. -/
theorem agree_registry :
    Agree (js "localhost:5000/org/app:1.2") ∧
      ∀ tag, IsTag tag → Retagged (js "localhost:5000/org/app:1.2") tag :=
  (agree_iff (js "localhost:5000/org/app:1.2") (by decide)).mpr (by decide)

/-- A pinned image: the daemon is asked for the tag `abc` of `nginx@sha256`. -/
theorem digest_not_pulled :
    accepted (js "nginx@sha256:abc") = true ∧
      pullImage (js "nginx@sha256:abc") = ⟨js "nginx@sha256", js "abc"⟩ ∧
      (parseImageRef (js "nginx@sha256:abc")).repository = js "library/nginx" ∧
      (parseImageRef (js "nginx@sha256:abc")).digest = some (js "sha256:abc") ∧
      ¬ Agree (js "nginx@sha256:abc") := by
  refine ⟨by decide, by decide, by decide, by decide, fun h => ?_⟩
  exact absurd (congrArg Target.version h.pull) (by decide)

end Aoox.ImageReferences
