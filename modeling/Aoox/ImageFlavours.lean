import Aoox.SemverPrecedence
import Mathlib.Data.List.Perm.Basic

/-! # Tags of one image flavour

An image tag writes its flavour (`-alpine`) where a version has its pre-release, and
behind a pre-release channel if it is on one: `1.0.0-rc.1-alpine`.  `eligible` says
which tags may replace the current one, from the texts of the two versions alone.
`newerImageTag` instead takes the whole pre-release for a flavour unless its first
identifier is a channel label, and then for no flavour at all.  What it lets through
is therefore not always eligible.  `picksNewest_iff` says for which lists this shows
in the tag that is picked.
-/
open Option
namespace Aoox.ImageTags

open JsString Std

/-! ## Eligible tags -/

/-- The pre-release cut at its dashes and dots. -/
def suffixParts (v : Semver) : List (List JsString) :=
  if v.prerelease = [] then []
  else (split (join v.prerelease [cu '.']) [cu '-']).map fun part => split part [cu '.']

/-- On the way to a release: the pre-release begins with a channel label. -/
def onChannel (v : Semver) : Bool :=
  match suffixParts v with
  | (label :: _) :: _ => isChannelLabel label
  | _ => false

/-- The parts behind the labels and numbers of a channel. -/
def dropChannel : List (List JsString) → List (List JsString)
  | [] => []
  | part :: parts =>
    match part.dropWhile fun id => isChannelLabel id || isNumeric id with
    | [] => dropChannel parts
    | rest => rest :: parts

/-- The flavour of the image: all of the suffix that is no channel. -/
def flavour (v : Semver) : List (List JsString) :=
  if onChannel v then dropChannel (suffixParts v) else suffixParts v

/-- Same major number, and for `0.x` the same minor number. -/
def sameLine (a b : JsString) : Bool :=
  match numbersOf a, numbersOf b with
  | x :: y :: _, x' :: y' :: _ => x = x' && (x' ≠ 0 || y = y')
  | _, _ => false

/-- `tag` is a newer version of the same image. -/
def eligible (current : JsString) (compatibleOnly : Bool) (tag : JsString) : Bool :=
  match parseSemver current, parseSemver tag with
  | some cur, some v =>
    precedence (versionText tag) (versionText current) = .gt && hasV tag = hasV current &&
      flavour v = flavour cur && (!onChannel v || onChannel cur) &&
      (!compatibleOnly || sameLine (versionText tag) (versionText current))
  | _, _ => false

/-- Two choices of equal precedence. -/
def SameRank : Option JsString → Option JsString → Prop
  | none, none => True
  | some a, some b => precedence (versionText a) (versionText b) = .eq
  | _, _ => False

/-- What is promised of `newerImageTag`. -/
structure PicksNewest (tags : List JsString) (current : JsString)
    (compatibleOnly : Bool) : Prop where
  none_iff : newerImageTag tags current compatibleOnly = none ↔
    ∀ tag ∈ tags, eligible current compatibleOnly tag = false
  newest : ∀ tag, newerImageTag tags current compatibleOnly = some tag →
    tag ∈ tags ∧ eligible current compatibleOnly tag = true ∧
      ∀ other ∈ tags, eligible current compatibleOnly other = true →
        precedence (versionText other) (versionText tag) ≠ .gt
  order : ∀ tags', tags.Perm tags' →
    SameRank (newerImageTag tags current compatibleOnly) (newerImageTag tags' current compatibleOnly)

/-! ## Tags that are let through -/

/-- The version of a tag that passes all the tests of the loop. -/
def letThrough (current : JsString) (compatibleOnly : Bool) (tag : JsString) : Option Semver :=
  (parseSemver current).bind fun cur => offered current cur compatibleOnly tag

section Choice
variable {current : JsString} {compatibleOnly : Bool} {tags : List JsString}

theorem parseSemver_of_letThrough {tag : JsString} {v : Semver}
    (h : letThrough current compatibleOnly tag = some v) :
    parseSemver tag = some v ∧ hasV tag = hasV current := by
  obtain ⟨cur, -, hoff⟩ := bind_eq_some_iff.mp h
  obtain ⟨hparse, hkeep⟩ := filter_eq_some_iff.mp hoff
  simp only [Bool.and_eq_true, decide_eq_true_eq] at hkeep
  exact ⟨hparse, hkeep.1.1.1.1⟩

theorem letThrough_of_newerImageTag {tag : JsString}
    (h : newerImageTag tags current compatibleOnly = some tag) :
    tag ∈ tags ∧ ∃ v, letThrough current compatibleOnly tag = some v ∧
      ∀ other ∈ tags, ∀ w, letThrough current compatibleOnly other = some w →
        (compareSemver w v).isLE := by
  obtain ⟨cur, v, hcur, hmem, hoff, hmax⟩ := newerImageTag_spec h
  refine ⟨hmem, v, by rw [letThrough, hcur]; exact hoff, fun other hother w hw => ?_⟩
  rw [letThrough, hcur] at hw
  exact hmax other hother w hw

variable {cur : Semver}

/-- What is better than everything behind it stays. -/
theorem foldl_better_of_isLE {tag : JsString} {v : Semver}
    (h : ∀ other ∈ tags, ∀ w, offered current cur compatibleOnly other = some w →
      (compareSemver w v).isLE) :
    tags.foldl (better current cur compatibleOnly) (some (tag, v)) = some (tag, v) := by
  induction tags with
  | nil => rfl
  | cons other rest ih =>
    have hstep : better current cur compatibleOnly (some (tag, v)) other = some (tag, v) := by
      unfold better
      split
      · rfl
      · rename_i hbest
        cases hbest
      · rename_i w t b hoff hbest
        obtain ⟨rfl, rfl⟩ := Prod.mk.inj (some.inj hbest)
        have hle := h other List.mem_cons_self w hoff
        refine if_neg fun hgt => ?_
        rw [hgt] at hle
        cases hle
    rw [List.foldl_cons, hstep]
    exact ih fun o ho => h o (List.mem_cons_of_mem _ ho)

/-- The first of the tags that no other one outranks is picked. -/
theorem newerImageTag_cons {tag : JsString} {v : Semver}
    (h : letThrough current compatibleOnly tag = some v)
    (hmax : ∀ other ∈ tags, ∀ w, letThrough current compatibleOnly other = some w →
      (compareSemver w v).isLE) :
    newerImageTag (tag :: tags) current compatibleOnly = some tag := by
  obtain ⟨cur, hcur, hoff⟩ := bind_eq_some_iff.mp h
  have hfirst : better current cur compatibleOnly none tag = some (tag, v) := by
    unfold better
    rw [hoff]
  have hkept := @foldl_better_of_isLE _ _ _ _ tag _ fun other hother w hw =>
    hmax other hother w (by rw [letThrough, hcur]; exact hw)
  rw [newerImageTag, hcur]
  simp only [bind_eq_bind, bind_some, List.foldl_cons, hfirst, hkept]
  rfl

theorem newerImageTag_ne_none {tag : JsString} (hmem : tag ∈ tags) {v : Semver}
    (h : letThrough current compatibleOnly tag = some v) :
    newerImageTag tags current compatibleOnly ≠ none := by
  obtain ⟨cur, hcur, hoff⟩ := bind_eq_some_iff.mp h
  have hempty : IsNewest current cur compatibleOnly [] none :=
    ⟨fun t v hb => by (cases hb), fun t ht => by (cases ht)⟩
  obtain ⟨b, hb, -⟩ := (isNewest_foldl tags [] none hempty).2 tag (by simpa using hmem) v hoff
  rw [newerImageTag, hcur]
  simp only [bind_eq_bind, bind_some, hb]
  exact some_ne_none _

/-! ## When the choice is right -/

/-- Of the tags that are let through, one is eligible if any tag is, and those are behind another
one that are not eligible or not the newest. -/
structure WellChosen (tags : List JsString) (current : JsString)
    (compatibleOnly : Bool) : Prop where
  some_eligible : (∃ tag ∈ tags, eligible current compatibleOnly tag = true) →
    ∃ tag ∈ tags, ∃ v, letThrough current compatibleOnly tag = some v
  behind : ∀ tag ∈ tags, ∀ v, letThrough current compatibleOnly tag = some v →
    (eligible current compatibleOnly tag = false ∨
      ∃ other ∈ tags, eligible current compatibleOnly other = true ∧
        precedence (versionText other) (versionText tag) = .gt) →
      ∃ other ∈ tags, ∃ w, letThrough current compatibleOnly other = some w ∧
        compareSemver w v = .gt

variable {tags' : List JsString}

theorem WellChosen.perm (h : WellChosen tags current compatibleOnly)
    (hperm : tags.Perm tags') : WellChosen tags' current compatibleOnly := by
  have hmem : ∀ {tag}, tag ∈ tags' ↔ tag ∈ tags := hperm.symm.mem_iff
  refine ⟨?_, ?_⟩
  · rintro ⟨tag, htag, helig⟩
    obtain ⟨other, hother, hlet⟩ := h.some_eligible ⟨tag, hmem.mp htag, helig⟩
    exact ⟨other, hmem.mpr hother, hlet⟩
  · intro tag htag v hv hwrong
    have hwrong' : eligible current compatibleOnly tag = false ∨
        ∃ other ∈ tags, eligible current compatibleOnly other = true ∧
          precedence (versionText other) (versionText tag) = .gt := by
      rcases hwrong with hnot | ⟨other, hother, hnewer⟩
      · exact .inl hnot
      · exact .inr ⟨other, hmem.mp hother, hnewer⟩
    obtain ⟨other, hother, hlet⟩ := h.behind tag (hmem.mp htag) v hv hwrong'
    exact ⟨other, hmem.mpr hother, hlet⟩

theorem WellChosen.newest (h : WellChosen tags current compatibleOnly) {tag : JsString}
    (hpick : newerImageTag tags current compatibleOnly = some tag) :
    tag ∈ tags ∧ eligible current compatibleOnly tag = true ∧
      ∀ other ∈ tags, eligible current compatibleOnly other = true →
        precedence (versionText other) (versionText tag) ≠ .gt := by
  obtain ⟨hmem, v, hv, hmax⟩ := letThrough_of_newerImageTag hpick
  have hfirst : ¬∃ other ∈ tags, ∃ w, letThrough current compatibleOnly other = some w ∧
      compareSemver w v = .gt := by
    rintro ⟨other, hother, w, hw, hgt⟩
    have hle := hmax other hother w hw
    rw [hgt] at hle
    cases hle
  refine ⟨hmem, ?_, fun other hother helig hgt => ?_⟩
  · by_contra hnot
    exact hfirst (h.behind tag hmem v hv (.inl (Bool.eq_false_iff.mpr hnot)))
  · exact hfirst (h.behind tag hmem v hv (.inr ⟨other, hother, helig, hgt⟩))

theorem WellChosen.none_iff (h : WellChosen tags current compatibleOnly) :
    newerImageTag tags current compatibleOnly = none ↔
      ∀ tag ∈ tags, eligible current compatibleOnly tag = false := by
  constructor
  · intro hnone tag htag
    by_contra helig
    obtain ⟨other, hother, v, hv⟩ := h.some_eligible ⟨tag, htag, by simpa using helig⟩
    exact newerImageTag_ne_none hother hv hnone
  · intro hnone
    by_contra hsome
    obtain ⟨tag, hpick⟩ := ne_none_iff_exists'.mp hsome
    obtain ⟨hmem, helig, -⟩ := h.newest hpick
    rw [hnone tag hmem] at helig
    cases helig

theorem parseSemver_of_eligible {tag : JsString}
    (h : eligible current compatibleOnly tag = true) : ∃ v, parseSemver tag = some v := by
  unfold eligible at h
  split at h
  · rename_i v _ hv
    exact ⟨_, hv⟩
  · cases h

variable {a b : JsString} {w : Semver}

/-- Two eligible tags none of which is newer have equal precedence. -/
theorem precedence_eq_of_not_newer {v : Semver} (ha : Reads a v) (hb : Reads b w)
    (hab : precedence a b ≠ .gt) (hba : precedence b a ≠ .gt) : precedence a b = .eq := by
  have hswap : precedence b a = (precedence a b).swap := by
    rw [precedence, precedence, Ordering.swap_then, ← comparePrerelease_eq ha.identifiers
      hb.identifiers, ← comparePrerelease_eq hb.identifiers ha.identifiers]
    congr 1
    · exact OrientedCmp.eq_swap
    · exact OrientedCmp.eq_swap
  rw [hswap] at hba
  cases hcmp : precedence a b with
  | lt =>
    rw [hcmp] at hba
    exact absurd rfl hba
  | eq => rfl
  | gt => exact absurd hcmp hab

theorem WellChosen.order (h : WellChosen tags current compatibleOnly) (hperm : tags.Perm tags') :
    SameRank (newerImageTag tags current compatibleOnly)
      (newerImageTag tags' current compatibleOnly) := by
  have h' := h.perm hperm
  cases hpick : newerImageTag tags current compatibleOnly with
  | none =>
    have hnone := h.none_iff.mp hpick
    rw [h'.none_iff.mpr fun tag htag => hnone tag (hperm.symm.mem_iff.mp htag)]
    trivial
  | some tag =>
    obtain ⟨hmem, helig, hmax⟩ := h.newest hpick
    cases hpick' : newerImageTag tags' current compatibleOnly with
    | none =>
      rw [h'.none_iff.mp hpick' tag (hperm.mem_iff.mp hmem)] at helig
      cases helig
    | some tag' =>
      obtain ⟨hmem', helig', hmax'⟩ := h'.newest hpick'
      obtain ⟨v, hv⟩ := parseSemver_of_eligible helig
      obtain ⟨w, hw⟩ := parseSemver_of_eligible helig'
      exact precedence_eq_of_not_newer (reads_of_parseSemver hv) (reads_of_parseSemver hw)
        (hmax' tag (hperm.mem_iff.mp hmem) helig) (hmax tag' (hperm.symm.mem_iff.mp hmem') helig')

theorem Reads.eq_of_text {v : Semver} (hv : Reads a v) (hw : Reads a w) : v = w := by
  have hmain := hv.main.trans hw.main.symm
  have hpre := hv.prerelease.trans hw.prerelease.symm
  cases v
  cases w
  simp only [List.cons.injEq, and_true] at hmain
  obtain ⟨rfl, rfl, rfl⟩ := hmain
  obtain rfl := hpre
  rfl

/-- Tags with one version text and one leading `v` are eligible together. -/
theorem eligible_congr {v : Semver} (ha : parseSemver a = some v) (hb : parseSemver b = some w)
    (htext : versionText a = versionText b) (hlead : hasV a = hasV b) :
    eligible current compatibleOnly a = eligible current compatibleOnly b := by
  have hvw : v = w := (reads_of_parseSemver ha).eq_of_text (htext ▸ reads_of_parseSemver hb)
  rw [eligible, eligible, ha, hb, htext, hlead, hvw]

theorem WellChosen.picksNewest (h : WellChosen tags current compatibleOnly) :
    PicksNewest tags current compatibleOnly :=
  ⟨h.none_iff, fun _ hpick => h.newest hpick, fun _ hperm => h.order hperm⟩

/-- **`newerImageTag` picks the newest eligible tag exactly when the tags it lets through are
well chosen.** -/
theorem picksNewest_iff (tags : List JsString) (current : JsString) (compatibleOnly : Bool) :
    PicksNewest tags current compatibleOnly ↔ WellChosen tags current compatibleOnly := by
  constructor
  · intro h
    refine ⟨?_, fun tag htag v hv hwrong => ?_⟩
    · rintro ⟨tag, htag, helig⟩
      have hsome : newerImageTag tags current compatibleOnly ≠ none := by
        intro hnone
        rw [h.none_iff.mp hnone tag htag] at helig
        cases helig
      obtain ⟨pick, hpick⟩ := Option.ne_none_iff_exists'.mp hsome
      obtain ⟨hmem, v, hv, -⟩ := letThrough_of_newerImageTag hpick
      exact ⟨pick, hmem, v, hv⟩
    · by_contra hfirst
      -- moved to the front, the tag is picked
      have hperm := List.perm_cons_erase htag
      have hfront : newerImageTag (tag :: tags.erase tag) current compatibleOnly = some tag := by
        refine newerImageTag_cons hv fun other hother w hw => ?_
        rw [Ordering.isLE_iff_ne_gt]
        exact fun hgt => hfirst ⟨other, List.mem_of_mem_erase hother, w, hw, hgt⟩
      have hrank := h.order _ hperm
      rw [hfront] at hrank
      cases hpick : newerImageTag tags current compatibleOnly with
      | none =>
        rw [hpick] at hrank
        exact hrank
      | some pick =>
        rw [hpick] at hrank
        obtain ⟨-, helig, hmax⟩ := h.newest pick hpick
        obtain ⟨-, w, hw, -⟩ := letThrough_of_newerImageTag hpick
        obtain ⟨hparse, hlead⟩ := parseSemver_of_letThrough hv
        obtain ⟨hparse', hlead'⟩ := parseSemver_of_letThrough hw
        have htext : versionText pick = versionText tag :=
          (precedence_eq_eq (reads_of_parseSemver hparse') (reads_of_parseSemver hparse)).mp hrank
        rw [eligible_congr hparse' hparse htext (hlead'.trans hlead.symm)] at helig
        rcases hwrong with hnot | ⟨other, hother, hother', hgt⟩
        · rw [hnot] at helig
          cases helig
        · rw [← htext] at hgt
          exact hmax other hother hother' hgt
  · exact fun h => h.picksNewest

/-! ## Tags that do not mix channel and flavour -/

/-- The suffix is a channel or a flavour, not both. -/
def Unmixed (v : Semver) : Prop :=
  if isVariantSuffix v then onChannel v = false
  else v.prerelease = [] ∨ onChannel v = true ∧ flavour v = []

theorem suffixParts_nil {v : Semver} (h : v.prerelease = []) : suffixParts v = [] := if_pos h

theorem onChannel_nil {v : Semver} (h : v.prerelease = []) : onChannel v = false := by
  rw [onChannel, suffixParts_nil h]

theorem Unmixed.flavour_nil {v : Semver} (h : Unmixed v) (hv : ¬isVariantSuffix v = true) :
    flavour v = [] := by
  rw [Unmixed, if_neg hv] at h
  rcases h with hnil | ⟨-, hflavour⟩
  · rw [flavour, onChannel_nil hnil, suffixParts_nil hnil]
    rfl
  · exact hflavour

theorem Unmixed.flavour_parts {v : Semver} (h : Unmixed v) (hv : isVariantSuffix v = true) :
    flavour v = suffixParts v := by
  rw [Unmixed, if_pos hv] at h
  rw [flavour, h]
  rfl

/-- Off a flavour, a pre-release is a channel. -/
theorem Unmixed.onChannel_iff {v : Semver} (h : Unmixed v) (hv : ¬isVariantSuffix v = true) :
    onChannel v = true ↔ v.prerelease ≠ [] := by
  rw [Unmixed, if_neg hv] at h
  rcases h with hnil | ⟨hchannel, -⟩
  · rw [onChannel_nil hnil, hnil]
    simp
  · refine ⟨fun _ hnil => ?_, fun _ => hchannel⟩
    rw [onChannel_nil hnil] at hchannel
    cases hchannel

theorem suffixParts_inj {v : Semver} (hv : v.prerelease ≠ []) (hw : w.prerelease ≠ [])
    (h : suffixParts v = suffixParts w) :
    join v.prerelease [cu '.'] = join w.prerelease [cu '.'] := by
  rw [suffixParts, suffixParts, if_neg hv, if_neg hw] at h
  have hback := congrArg (List.map fun part => join part [cu '.']) h
  simp only [List.map_map, Function.comp_def, join_split_unit, List.map_id'] at hback
  rw [← join_split_unit (cu '-') (join v.prerelease [cu '.']), hback, join_split_unit]

theorem suffixParts_ne_nil {v : Semver} (hv : v.prerelease ≠ []) : suffixParts v ≠ [] := by
  rw [suffixParts, if_neg hv]
  intro h
  exact splitGo_ne_nil _ _ _ (List.map_eq_nil_iff.mp h)

theorem prerelease_ne_nil {v : Semver} (h : isVariantSuffix v = true) : v.prerelease ≠ [] := by
  intro hnil
  rw [isVariantSuffix, hnil] at h
  cases h

/-- Without mixtures the loop compares flavours. -/
theorem variantOf_eq_iff {v : Semver} (hv : Unmixed v) (hw : Unmixed w) :
    variantOf v = variantOf w ↔ flavour v = flavour w := by
  by_cases hvs : isVariantSuffix v = true
  · have hvne := prerelease_ne_nil hvs
    rw [variantOf, if_pos hvs, hv.flavour_parts hvs]
    by_cases hws : isVariantSuffix w = true
    · have hwne := prerelease_ne_nil hws
      rw [variantOf, if_pos hws, hw.flavour_parts hws, some.injEq]
      refine ⟨fun h => ?_, suffixParts_inj hvne hwne⟩
      rw [suffixParts, suffixParts, if_neg hvne, if_neg hwne, h]
    · rw [variantOf, if_neg hws, hw.flavour_nil hws]
      exact ⟨fun h => absurd h (some_ne_none _), fun h => absurd h (suffixParts_ne_nil hvne)⟩
  · rw [variantOf, if_neg hvs, hv.flavour_nil hvs]
    by_cases hws : isVariantSuffix w = true
    · have hwne := prerelease_ne_nil hws
      rw [variantOf, if_pos hws, hw.flavour_parts hws]
      exact ⟨fun h => absurd h.symm (some_ne_none _),
        fun h => absurd h.symm (suffixParts_ne_nil hwne)⟩
    · rw [variantOf, if_neg hws, hw.flavour_nil hws]
      simp

/-- Without mixtures a stable tag is offered no channel. -/
theorem keepsStable_eq {v : Semver} (hv : Unmixed v) (hcur : Unmixed cur)
    (hsame : variantOf v = variantOf cur) :
    (variantOf v ≠ none || v.prerelease = [] || cur.prerelease ≠ []) =
      (!onChannel v || onChannel cur) := by
  by_cases hvs : isVariantSuffix v = true
  · have hsome : variantOf v ≠ none := by
      rw [variantOf, if_pos hvs]
      exact some_ne_none _
    have hoff := hv
    rw [Unmixed, if_pos hvs] at hoff
    simp [hsome, hoff]
  · have hnone : variantOf v = none := if_neg hvs
    have hcs : ¬isVariantSuffix cur = true := by
      intro hcs
      rw [hnone, variantOf, if_pos hcs] at hsame
      cases hsame
    rw [Bool.eq_iff_iff]
    simp only [hnone, Bool.or_eq_true, decide_eq_true_eq, Bool.not_eq_true', ← Bool.not_eq_true,
      hv.onChannel_iff hvs, hcur.onChannel_iff hcs]
    simp

def Exact (text : JsString) : Prop := ∀ n ∈ numbersOf text, n < 2 ^ 53

theorem Reads.main_of_exact {text : JsString} {v : Semver} (h : Reads text v) (he : Exact text) :
    [v.major, v.minor, v.patch] = numbersOf text := by
  rw [h.main]
  exact (List.map_congr_left fun n hn => toNumber_of_lt (he n hn)).trans (List.map_id _)

theorem compareSemver_of_exact {v : Semver} (ha : Reads a v) (hb : Reads b w) (hea : Exact a)
    (heb : Exact b) : compareSemver v w = precedence a b := by
  rw [compareSemver_eq ha hb, precedence, ← ha.main, ← hb.main, ha.main_of_exact hea,
    hb.main_of_exact heb]

theorem isCompatible_of_exact {v : Semver} (ha : Reads a v) (hb : Reads b w) (hea : Exact a)
    (heb : Exact b) : isCompatible v w = sameLine a b := by
  rw [isCompatible, sameLine, ← ha.main_of_exact hea, ← hb.main_of_exact heb]

/-- What the loop reads rightly: one suffix, and numbers that are doubles. -/
structure Plain (tag : JsString) : Prop where
  unmixed : ∀ v, parseSemver tag = some v → Unmixed v
  exact : Exact (versionText tag)

theorem letThrough_iff_eligible {tag : JsString} (hcurrent : Plain current) (htag : Plain tag) :
    (∃ v, letThrough current compatibleOnly tag = some v) ↔
      eligible current compatibleOnly tag = true := by
  cases hcur : parseSemver current with
  | none => simp [letThrough, eligible, hcur]
  | some cur =>
    cases hv : parseSemver tag with
    | none => simp [letThrough, eligible, offered, hcur, hv]
    | some v =>
      have hrc := reads_of_parseSemver hcur
      have hrv := reads_of_parseSemver hv
      have huc := hcurrent.unmixed cur hcur
      have huv := htag.unmixed v hv
      have hfilter : ∀ p : Semver → Bool, (∃ u, (some v).filter p = some u) ↔ p v = true := by
        intro p
        by_cases h : p v <;> simp [h]
      rw [letThrough, hcur, bind_some, offered, hv, hfilter, eligible, hcur, hv,
        compareSemver_of_exact hrv hrc htag.exact hcurrent.exact,
        isCompatible_of_exact hrv hrc htag.exact hcurrent.exact]
      by_cases hsame : variantOf v = variantOf cur
      · have hflavour := (variantOf_eq_iff huv huc).mp hsame
        rw [keepsStable_eq huv huc hsame]
        simp only [hsame, hflavour, Bool.and_eq_true, decide_eq_true_eq]
        tauto
      · have hflavour : ¬flavour v = flavour cur :=
          fun h => hsame ((variantOf_eq_iff huv huc).mpr h)
        simp [hsame, hflavour]

/-- **Among plain tags the newest eligible one is picked.** -/
theorem picksNewest_of_plain (hcurrent : Plain current) (htags : ∀ tag ∈ tags, Plain tag) :
    PicksNewest tags current compatibleOnly := by
  refine WellChosen.picksNewest ⟨?_, fun tag htag v hv hwrong => ?_⟩
  · rintro ⟨tag, htag, helig⟩
    exact ⟨tag, htag, (letThrough_iff_eligible hcurrent (htags tag htag)).mpr helig⟩
  · have helig := (letThrough_iff_eligible hcurrent (htags tag htag)).mp ⟨v, hv⟩
    rcases hwrong with hnot | ⟨other, hother, helig', hgt⟩
    · rw [hnot] at helig
      cases helig
    · obtain ⟨w, hw⟩ := (letThrough_iff_eligible hcurrent (htags other hother)).mpr helig'
      refine ⟨other, hother, w, hw, ?_⟩
      rwa [compareSemver_of_exact (reads_of_parseSemver (parseSemver_of_letThrough hw).1)
        (reads_of_parseSemver (parseSemver_of_letThrough hv).1) (htags other hother).exact
        (htags tag htag).exact]

end Choice

theorem picksNewest_sample : PicksNewest [js "1.0.0", js "1.1.0"] (js "1.0.0") true := by
  have hplain : ∀ tag ∈ [js "1.0.0", js "1.1.0"], Plain tag := by
    intro tag htag
    have hpre : (parseSemver tag).all (·.prerelease = []) = true := by revert tag; decide
    refine ⟨fun v hv => ?_, by revert tag; unfold Exact; decide⟩
    rw [hv] at hpre
    have hnil : v.prerelease = [] := of_decide_eq_true hpre
    rw [Unmixed, isVariantSuffix, hnil]
    exact .inl rfl
  exact picksNewest_of_plain (hplain _ List.mem_cons_self) hplain

/-- An `-alpine` image on a channel is moved to the plain one. -/
theorem newerImageTag_rcAlpine :
    newerImageTag [js "1.0.0"] (js "1.0.0-rc.1-alpine") false = some (js "1.0.0") ∧
      eligible (js "1.0.0-rc.1-alpine") false (js "1.0.0") = false ∧
      ¬PicksNewest [js "1.0.0"] (js "1.0.0-rc.1-alpine") false := by
  have hpick : newerImageTag [js "1.0.0"] (js "1.0.0-rc.1-alpine") false =
      some (js "1.0.0") := by decide
  have hnot : eligible (js "1.0.0-rc.1-alpine") false (js "1.0.0") = false := by decide
  refine ⟨hpick, hnot, fun h => ?_⟩
  obtain ⟨-, helig, -⟩ := h.newest _ hpick
  rw [hnot] at helig
  cases helig

end Aoox.ImageTags
