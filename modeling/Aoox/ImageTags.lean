import Aoox.JsString
import Mathlib.Algebra.Group.Nat.Defs

/-! # Image tags and their versions

An image tag is read as a semantic version where it is one.  `compareSemver`
orders versions: numbers first, a stable release above its pre-releases, and
pre-releases by their identifiers.  `newerImageTag` picks the newest tag of a list
that may replace the current one.  The order is transitive
(`transCmp_compareSemver`), so what it picks is behind no other tag it could have
picked (`newerImageTag_spec`).
-/
namespace Aoox.ImageTags

open JsString Std Option

structure Semver where
  (major minor patch : Nat)
  /-- Empty for a stable release. -/
  prerelease : List JsString
  deriving DecidableEq, Repr

def digitsValue (digits : JsString) : Nat :=
  digits.foldl (fun n c => 10 * n + (c.toNat - 48)) 0

/-- The double nearest to `n`, ties to even; `2 ^ 1024` stands for `Infinity`. -/
def toNumber (n : Nat) : Nat :=
  if n < 2 ^ 53 then n
  else
    let ulp := 2 ^ (n.log2 - 52)
    let q := n / ulp
    let r := n % ulp
    min ((if ulp < 2 * r || (2 * r = ulp && q % 2 = 1) then q + 1 else q) * ulp) (2 ^ 1024)

def isNumeric (id : JsString) : Bool := id ≠ [] && id.all isDigit

/-- `0|[1-9]\d*`. -/
def isNumber (text : JsString) : Bool := isNumeric text && (text.length = 1 || text.head? ≠ some (cu '0'))

def isIdentifierUnit (c : CodeUnit) : Bool := isLetter c || isDigit c || c = cu '-'

/-- `0|[1-9]\d*|\d*[A-Za-z-][0-9A-Za-z-]*`. -/
def isIdentifier (text : JsString) : Bool :=
  text ≠ [] && text.all isIdentifierUnit && (!isNumeric text || isNumber text)

/-- The text before the first `c`, and what follows it. -/
def cutFirst (c : CodeUnit) (text : JsString) : JsString × Option JsString :=
  (text.takeWhile (· ≠ c), (text.dropWhile (· ≠ c)).tail?)

def parseNumbers (text : JsString) (prerelease : List JsString) : Option Semver :=
  match split text [cu '.'] with
  | [a, b, c] =>
    if isNumber a && isNumber b && isNumber c then
      some
        { major := toNumber (digitsValue a)
          minor := toNumber (digitsValue b)
          patch := toNumber (digitsValue c)
          prerelease := prerelease }
    else none
  | _ => none

/-- Build metadata plays no part but has to be well formed. -/
def parseSemver (input : JsString) : Option Semver :=
  let text := trim input
  let (core, build) := cutFirst (cu '+') (if startsWith text [cu 'v'] then text.drop 1 else text)
  let (numbers, pre) := cutFirst (cu '-') core
  let ids := (pre.map fun p => split p [cu '.']).getD []
  let metas := (build.map fun b => split b [cu '.']).getD []
  if ids.all isIdentifier && metas.all (fun m => m ≠ [] && m.all isIdentifierUnit) then
    parseNumbers numbers ids
  else none

/-- Numbers compare as numbers and come before words. -/
def compareIdentifiers (a b : JsString) : Ordering :=
  if isNumeric a && isNumeric b then (compare a.length b.length).then (compare a b)
  else if isNumeric a then .lt
  else if isNumeric b then .gt
  else compare a b

/-- A stable release outranks any pre-release; of two the longer one does when all
shared identifiers are equal. -/
def comparePrerelease (a b : List JsString) : Ordering :=
  if a = [] && b = [] then .eq
  else if a = [] then .gt
  else if b = [] then .lt
  else List.compareLex compareIdentifiers a b

def compareSemver (a b : Semver) : Ordering :=
  (compare a.major b.major).then ((compare a.minor b.minor).then
    ((compare a.patch b.patch).then (comparePrerelease a.prerelease b.prerelease)))

def channelLabels : List JsString :=
  [js "alpha", js "beta", js "rc", js "pre", js "preview", js "dev", js "canary", js "next",
    js "nightly", js "snapshot", js "a", js "b"]

/-- A label on the way to a release, with an optional number. -/
def isChannelLabel (id : JsString) : Bool :=
  channelLabels.any fun l =>
    startsWith (toLowerCase id) l && ((toLowerCase id).drop l.length).all isDigit

/-- Any other pre-release identifier is a variant (`-alpine`). -/
def isVariantSuffix (v : Semver) : Bool :=
  match v.prerelease with
  | [] => false
  | id :: _ => !isChannelLabel id

def variantOf (v : Semver) : Option JsString :=
  if isVariantSuffix v then some (join v.prerelease [cu '.']) else none

def hasV (tag : JsString) : Bool := startsWith (trim tag) [cu 'v']

/-- Same major, and for `0.x` the same minor. -/
def isCompatible (v cur : Semver) : Bool :=
  v.major = cur.major && (cur.major ≠ 0 || v.minor = cur.minor)

def offered (current : JsString) (cur : Semver) (compatibleOnly : Bool) (tag : JsString) :
    Option Semver :=
  (parseSemver tag).filter fun v =>
    hasV tag = hasV current && variantOf v = variantOf cur &&
    (variantOf v ≠ none || v.prerelease = [] || cur.prerelease ≠ []) &&
    compareSemver v cur = .gt && (!compatibleOnly || isCompatible v cur)

/-- The better of what was found and the next tag. -/
def better (current : JsString) (cur : Semver) (compatibleOnly : Bool)
    (best : Option (JsString × Semver)) (tag : JsString) : Option (JsString × Semver) :=
  match offered current cur compatibleOnly tag, best with
  | none, _ => best
  | some v, none => some (tag, v)
  | some v, some (t, b) => if compareSemver v b = .gt then some (tag, v) else some (t, b)

/-- The newest tag that is newer than `current`. -/
def newerImageTag (tags : List JsString) (current : JsString) (compatibleOnly : Bool) :
    Option JsString := do
  let cur ← parseSemver current
  let best ← tags.foldl (better current cur compatibleOnly) none
  return best.1

instance transCmp_compareIdentifiers : TransCmp compareIdentifiers := by
  -- words behind numbers, then numbers by length, then by text
  have heq : compareIdentifiers = compareLex (compareOn fun a => !isNumeric a)
      (compareLex (compareOn fun a => if isNumeric a then a.length else 0) compare) := by
    funext a b
    simp only [compareIdentifiers, compareLex, compareOn]
    cases isNumeric a <;> cases isNumeric b <;> rfl
  rw [heq]
  infer_instance

instance transCmp_comparePrerelease : TransCmp comparePrerelease := by
  have heq : comparePrerelease = compareLex (compareOn fun a : List JsString => decide (a = []))
      (List.compareLex compareIdentifiers) := by
    funext a b
    simp only [comparePrerelease, compareLex, compareOn]
    cases a <;> cases b <;> rfl
  rw [heq]
  infer_instance

/-- **Versions are ordered.** -/
instance transCmp_compareSemver : TransCmp compareSemver := by
  have hpre : TransCmp fun a b : Semver => comparePrerelease a.prerelease b.prerelease :=
    { eq_swap := fun {a b} => @OrientedCmp.eq_swap _ comparePrerelease _ a.prerelease b.prerelease
      isLE_trans := fun {a b c} =>
        @TransCmp.isLE_trans _ comparePrerelease _ a.prerelease b.prerelease c.prerelease }
  exact inferInstanceAs (TransCmp (compareLex (compareOn Semver.major)
    (compareLex (compareOn Semver.minor) (compareLex (compareOn Semver.patch)
      fun a b : Semver => comparePrerelease a.prerelease b.prerelease))))

section Newest
variable {current : JsString} {cur : Semver} {compatibleOnly : Bool}

theorem newer_of_offered {tag : JsString} {v : Semver}
    (h : offered current cur compatibleOnly tag = some v) :
    parseSemver tag = some v ∧ compareSemver v cur = .gt := by
  obtain ⟨hparse, hkeep⟩ := filter_eq_some_iff.mp h
  simp only [Bool.and_eq_true, decide_eq_true_eq] at hkeep
  exact ⟨hparse, hkeep.1.2⟩

/-- What `better` keeps: a tag of those seen that no other one is newer than. -/
def IsNewest (current : JsString) (cur : Semver) (compatibleOnly : Bool) (seen : List JsString)
    (best : Option (JsString × Semver)) : Prop :=
  (∀ t v, best = some (t, v) → t ∈ seen ∧ offered current cur compatibleOnly t = some v) ∧
    ∀ t ∈ seen, ∀ v, offered current cur compatibleOnly t = some v →
      ∃ b, best = some b ∧ (compareSemver v b.2).isLE

theorem isNewest_better {seen : List JsString} {best : Option (JsString × Semver)}
    (h : IsNewest current cur compatibleOnly seen best) (tag : JsString) :
    IsNewest current cur compatibleOnly (seen ++ [tag])
      (better current cur compatibleOnly best tag) := by
  obtain ⟨hmem, hmax⟩ := h
  have hseen : ∀ {t}, t ∈ seen → t ∈ seen ++ [tag] := fun ht => List.mem_append_left _ ht
  have hsplit : ∀ {t}, t ∈ seen ++ [tag] → t ∈ seen ∨ t = tag := by
    intro t ht
    simpa using ht
  unfold better
  split
  · next hoff =>
    refine ⟨fun t v hb => ⟨hseen (hmem t v hb).1, (hmem t v hb).2⟩, fun t ht v hv => ?_⟩
    rcases hsplit ht with ht | rfl
    · exact hmax t ht v hv
    · rw [hoff] at hv
      cases hv
  · next v hoff =>
    refine ⟨fun t w hb => ?_, fun t ht w hw => ?_⟩
    · cases hb
      exact ⟨by simp, hoff⟩
    · rcases hsplit ht with ht | rfl
      · obtain ⟨b, hb, -⟩ := hmax t ht w hw
        cases hb
      · obtain rfl := some.inj (hoff.symm.trans hw)
        exact ⟨_, rfl, ReflCmp.isLE_rfl⟩
  · next v t b hoff =>
    obtain ⟨hb, hboff⟩ := hmem t b rfl
    split
    · next hgt =>
      refine ⟨fun t' w hb' => ?_, fun t' ht w hw => ?_⟩
      · cases hb'
        exact ⟨by simp, hoff⟩
      · refine ⟨_, rfl, ?_⟩
        rcases hsplit ht with ht | rfl
        · obtain ⟨b', hb', hle⟩ := hmax t' ht w hw
          obtain rfl := some.inj hb'
          have hlt : compareSemver b v = .lt := OrientedCmp.lt_of_gt hgt
          exact TransCmp.isLE_trans hle (by rw [hlt]; rfl)
        · obtain rfl := some.inj (hoff.symm.trans hw)
          exact ReflCmp.isLE_rfl
    · next hle =>
      refine ⟨fun t' w hb' => ?_, fun t' ht w hw => ?_⟩
      · cases hb'
        exact ⟨hseen hb, hboff⟩
      · rcases hsplit ht with ht | rfl
        · exact hmax t' ht w hw
        · obtain rfl := some.inj (hoff.symm.trans hw)
          exact ⟨_, rfl, by simpa [Ordering.isLE_iff_ne_gt] using hle⟩

theorem isNewest_foldl (tags seen : List JsString) (best : Option (JsString × Semver))
    (h : IsNewest current cur compatibleOnly seen best) :
    IsNewest current cur compatibleOnly (seen ++ tags)
      (tags.foldl (better current cur compatibleOnly) best) := by
  induction tags generalizing seen best with
  | nil => simpa using h
  | cons tag tags ih => simpa using ih _ _ (isNewest_better h tag)

/-- **The tag that is picked** is one of the list, newer than the current one,
and no other one on offer is newer. -/
theorem newerImageTag_spec {tags : List JsString} {t : JsString}
    (h : newerImageTag tags current compatibleOnly = some t) :
    ∃ cur v, parseSemver current = some cur ∧ t ∈ tags ∧
      offered current cur compatibleOnly t = some v ∧
      ∀ t' ∈ tags, ∀ v', offered current cur compatibleOnly t' = some v' →
        (compareSemver v' v).isLE := by
  simp only [newerImageTag, bind_eq_bind, bind_eq_some_iff, pure_def, some.injEq] at h
  obtain ⟨cur, hcur, ⟨t', v⟩, hbest, rfl⟩ := h
  have hempty : IsNewest current cur compatibleOnly [] none :=
    ⟨fun t v hb => by (cases hb), fun t ht => by (cases ht)⟩
  obtain ⟨hmem, hmax⟩ := isNewest_foldl tags [] none hempty
  rw [hbest] at hmem hmax
  obtain ⟨hin, hoff⟩ := hmem t' v rfl
  refine ⟨cur, v, hcur, by simpa using hin, hoff, fun t'' ht'' w hw => ?_⟩
  obtain ⟨b, hb, hle⟩ := hmax t'' (by simpa using ht'') w hw
  obtain rfl := some.inj hb
  exact hle

end Newest

end Aoox.ImageTags
