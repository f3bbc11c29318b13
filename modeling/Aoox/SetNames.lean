import Aoox.CaseMapping
import Mathlib

/-! # Names of variable sets

When the environments of projects become variable sets, each set gets a name and a slug no other one
has.  A name that is taken is numbered, and so is a slug; what stands before the number is cut short
so that the whole still fits.

Candidates of different rounds end in different numbers, however much of the text before them is cut
(`nameCandidate_inj`, `slugCandidate_inj`).  Finitely many are taken, so that the search ends, and it
ends early enough for the number to be short (`firstFree_isSome`).
-/
open List Option
namespace Aoox

/-! ## Numbered candidates -/

variable {i : Nat}

namespace Numbered
variable {α β : Type*} [DecidableEq β] {candidate : Nat → α} {key : α → β} {used : List β}

/-- The first candidate from `i` on whose key is not in use; `none` if the rounds run out. -/
def firstFree (candidate : Nat → α) (key : α → β) (used : List β) : (fuel i : Nat) → Option α
  | 0, _ => none
  | fuel + 1, i =>
    if key (candidate i) ∈ used then firstFree candidate key used fuel (i + 1)
    else some (candidate i)

theorem firstFree_skip {j : Nat} (hused : ∀ k < j, key (candidate (i + k)) ∈ used)
    (hfree : key (candidate (i + j)) ∉ used) {fuel : Nat} (hfuel : j < fuel) :
    firstFree candidate key used fuel i = some (candidate (i + j)) := by
  induction j generalizing i fuel with
  | zero =>
    obtain ⟨fuel, rfl⟩ := Nat.exists_eq_succ_of_ne_zero (Nat.ne_of_gt hfuel)
    exact if_neg hfree
  | succ j ih =>
    obtain ⟨fuel, rfl⟩ := Nat.exists_eq_succ_of_ne_zero (Nat.ne_of_gt (Nat.zero_lt_of_lt hfuel))
    have hshift : ∀ k, i + 1 + k = i + (k + 1) := by omega
    rw [firstFree, if_pos (show key (candidate i) ∈ used from hused 0 (Nat.succ_pos j)),
      ih (fun k hk => by rw [hshift]; exact hused (k + 1) (by omega)) (by rwa [hshift])
        (Nat.lt_of_succ_lt_succ hfuel), hshift]

/-- Among one more candidates than there are keys in use, one is free. -/
theorem exists_free (hinj : ∀ m n, key (candidate m) = key (candidate n) → m = n) (i : Nat) :
    ∃ j ≤ used.length, key (candidate (i + j)) ∉ used := by
  by_contra hall
  have hsubset : (List.range (used.length + 1)).map (fun j => key (candidate (i + j))) ⊆ used := by
    intro k hk
    obtain ⟨j, hj, rfl⟩ := mem_map.mp hk
    by_contra hfree
    exact hall ⟨j, Nat.le_of_lt_succ (mem_range.mp hj), hfree⟩
  have hnodup : ((List.range (used.length + 1)).map fun j => key (candidate (i + j))).Nodup :=
    nodup_range.map fun m n h => Nat.add_left_cancel (hinj _ _ h)
  have hlength := (subperm_of_subset hnodup hsubset).length_le
  rw [length_map, length_range] at hlength
  exact absurd hlength (Nat.not_succ_le_self _)

/-- **The search ends**, no later than all used keys are tried. -/
theorem firstFree_isSome (used : List β) (hinj : ∀ m n, key (candidate m) = key (candidate n) → m = n) (i : Nat) :
    ∃ j ≤ used.length, key (candidate (i + j)) ∉ used ∧ ∀ fuel, used.length < fuel →
        firstFree candidate key used fuel i = some (candidate (i + j)) := by
  have hex : ∃ j ≤ used.length, key (candidate (i + j)) ∉ used := exists_free hinj i
  refine ⟨Nat.find hex, (Nat.find_spec hex).1, (Nat.find_spec hex).2, fun fuel hfuel => ?_⟩
  refine firstFree_skip (fun k hk => ?_) (Nat.find_spec hex).2
    (Nat.lt_of_le_of_lt (Nat.find_spec hex).1 hfuel)
  by_contra hfree
  exact Nat.find_min hex hk ⟨Nat.le_trans (Nat.le_of_lt hk) (Nat.find_spec hex).1, hfree⟩

end Numbered

namespace SetNames
open JsString Numbered

/-! ## The names -/

def SET_NAME_MAX : Nat := 100
def SET_SLUG_MAX : Nat := 64

/-- `text.slice(0, end)`; a negative end counts from behind. -/
def sliceUpTo (text : JsString) (stop : Int) : JsString :=
  text.take (if stop < 0 then text.length + stop else stop).toNat

/-- `[a-z0-9]`. -/
def isWordUnit (c : CodeUnit) : Bool := (cu 'a' ≤ c && c ≤ cu 'z') || isDigit c

/-- `text.replace(/[^a-z0-9]+/g, '-')`. -/
def dashRuns : (inRun : Bool) → JsString → JsString
  | _, [] => []
  | inRun, c :: t =>
    if isWordUnit c then c :: dashRuns false t
    else if inRun then dashRuns true t else cu '-' :: dashRuns true t

/-- Without the dashes `text` begins with. -/
def trimDashesStart (text : JsString) : JsString := text.dropWhile (· == cu '-')

/-- Without the dashes `text` ends in. -/
def trimDashesEnd (text : JsString) : JsString := text.rdropWhile (· == cu '-')

def slugifySetName (T : CaseMapping.Tables) (name : JsString) : JsString :=
  let marked := T.nfkd (T.toLowerCase name)
  let plain := marked.filter fun c => !(0x300 ≤ c && c ≤ 0x36F)
  let slug := trimDashesEnd (sliceUpTo
    (trimDashesEnd (trimDashesStart (dashRuns false plain))) SET_SLUG_MAX)
  if slug = [] then js "set" else slug

/-- The name with the number of a later round. -/
def nameCandidate (base : JsString) (i : Nat) : JsString :=
  let suffix := cu ' ' :: cu '(' :: js (toString i) ++ [cu ')']
  sliceUpTo base (SET_NAME_MAX - suffix.length) ++ suffix

def uniqueSetName (T : CaseMapping.Tables) (fuel : Nat) (name : JsString) (taken : List JsString) :
    Option JsString :=
  let used := taken.map T.toLowerCase
  let trimmed := sliceUpTo (trim name) SET_NAME_MAX
  let base := if trimmed = [] then js "Variables" else trimmed
  if T.toLowerCase base ∈ used then firstFree (nameCandidate base) T.toLowerCase used fuel 2
  else some base

def slugCandidate (slug : JsString) (i : Nat) : JsString :=
  let suffix := cu '-' :: js (toString i)
  trimDashesEnd (sliceUpTo slug (SET_SLUG_MAX - suffix.length)) ++ suffix

def uniqueSetSlug (fuel : Nat) (slug : JsString) (taken : List JsString) : Option JsString :=
  if slug ∈ taken then firstFree (slugCandidate slug) id taken fuel 2 else some slug

/-! ## The plan -/

structure ProjectRow where
  (id name : JsString)

structure EnvironmentRow where
  (id projectId : JsString)

structure PlannedSet where
  (projectId name slug : JsString)
  environmentIds : List JsString

/-- An array of the language has fewer than 2^32 elements. -/
structure JsArray (α : Type) where
  elems : List α
  short : elems.length < 2 ^ 32

def environmentIds (nonEmpty : List EnvironmentRow) (p : ProjectRow) : List JsString :=
  (nonEmpty.filter fun e => e.projectId = p.id).map (·.id)

/-- The loop over the projects; either search may run out of its rounds. -/
def planSetsGo (T : CaseMapping.Tables) (fuel : Nat) (nonEmpty : List EnvironmentRow) :
    (projects : List ProjectRow) → (names slugs : List JsString) → Option (List PlannedSet)
  | [], _, _ => some []
  | p :: projects, names, slugs =>
    if environmentIds nonEmpty p = [] then planSetsGo T fuel nonEmpty projects names slugs
    else do
      let name ← uniqueSetName T fuel p.name names
      let slug ← uniqueSetSlug fuel (slugifySetName T name) slugs
      let rest ← planSetsGo T fuel nonEmpty projects (names ++ [name]) (slugs ++ [slug])
      return ⟨p.id, name, slug, environmentIds nonEmpty p⟩ :: rest

def planSets (T : CaseMapping.Tables) (fuel : Nat) (projects : JsArray ProjectRow)
    (nonEmpty : JsArray EnvironmentRow) (takenNames takenSlugs : JsArray JsString) :
    Option (List PlannedSet) :=
  planSetsGo T fuel nonEmpty.elems projects.elems takenNames.elems takenSlugs.elems

/-! ## The form of a slug -/

/-- The form `[a-z0-9]+(-[a-z0-9]+)*`. -/
inductive SlugForm : JsString → Prop
  | word {w : JsString} (hne : w ≠ []) (hw : ∀ c ∈ w, isWordUnit c) : SlugForm w
  | dash {w rest : JsString} (hne : w ≠ []) (hw : ∀ c ∈ w, isWordUnit c) (hrest : SlugForm rest) :
      SlugForm (w ++ cu '-' :: rest)

/-- Words and single dashes, what a piece cut out of a slug consists of. -/
structure Tidy (text : JsString) : Prop where
  units : ∀ c ∈ text, isWordUnit c ∨ c = cu '-'
  apart : text.IsChain fun a b => ¬ (a = cu '-' ∧ b = cu '-')

/-- Such a piece from the front of a slug. -/
structure Headed (text : JsString) : Prop extends Tidy text where
  head : text.head? ≠ some (cu '-')

structure IsSlug (text : JsString) : Prop extends Headed text where
  last : text.getLast? ≠ some (cu '-')
  ne : text ≠ []

variable {c : CodeUnit}

theorem not_dash (h : isWordUnit c) : c ≠ cu '-' := by
  rintro rfl
  exact absurd h (by decide)

variable {a b : JsString}

theorem Tidy.piece (h : Tidy b) (hab : a <:+: b) : Tidy a where
  units c hc := h.units c (hab.subset hc)
  apart := List.IsChain.infix h.apart hab

theorem Headed.front (h : Headed b) (hab : a <+: b) : Headed a where
  toTidy := h.toTidy.piece hab.isInfix
  head := by
    intro hhead
    obtain ⟨rest, rfl⟩ := hab
    exact h.head (by rw [List.head?_append, hhead]; rfl)

theorem tidy_dashRuns (inRun : Bool) (text : JsString) :
    Tidy (dashRuns inRun text) ∧ (inRun → (dashRuns inRun text).head? ≠ some (cu '-')) := by
  induction text generalizing inRun with
  | nil => exact ⟨⟨fun c hc => absurd hc not_mem_nil, .nil⟩, fun _ h => nomatch h⟩
  | cons c t ih =>
    rw [dashRuns]
    split
    · next hword =>
      obtain ⟨⟨hunits, hapart⟩, -⟩ := ih false
      refine ⟨⟨forall_mem_cons.mpr ⟨.inl hword, hunits⟩, ?_⟩, fun _ h => ?_⟩
      · exact isChain_cons.mpr ⟨fun _ _ hboth => not_dash hword hboth.1, hapart⟩
      · exact not_dash hword (some.inj h)
    · split
      · next hrun => exact ⟨(ih true).1, fun _ => (ih true).2 rfl⟩
      · next hrun =>
        obtain ⟨⟨hunits, hapart⟩, hhead⟩ := ih true
        refine ⟨⟨forall_mem_cons.mpr ⟨.inr rfl, hunits⟩, ?_⟩, fun h => absurd h hrun⟩
        exact isChain_cons.mpr ⟨fun d hd hboth => hhead rfl (hboth.2 ▸ hd), hapart⟩

variable {text : JsString}

theorem isSlug_trimDashesEnd (h : Headed text) (hne : trimDashesEnd text ≠ []) :
    IsSlug (trimDashesEnd text) where
  toHeaded := h.front (List.rdropWhile_prefix _ text)
  last := by
    intro hlast
    have hnot := rdropWhile_last_not (· == cu '-') text hne
    rw [getLast?_eq_some_getLast hne] at hlast
    exact hnot (beq_iff_eq.mpr (some.inj hlast))
  ne := hne

theorem slugForm_behind (h : Tidy text) (hlast : text.getLast? ≠ some (cu '-')) :
    (∀ w, w ≠ [] → (∀ c ∈ w, isWordUnit c) → SlugForm (w ++ text)) ∧
      (text ≠ [] → text.head? ≠ some (cu '-') → SlugForm text) := by
  induction text with
  | nil =>
    refine ⟨fun w hne hw => ?_, fun hne => absurd rfl hne⟩
    rw [append_nil]
    exact .word hne hw
  | cons c t ih =>
    have htail : t.getLast? ≠ some (cu '-') := by
      cases t with
      | nil => exact fun h => nomatch h
      | cons d t => rwa [getLast?_cons_cons] at hlast
    obtain ⟨hbehind, hwhole⟩ := ih (h.piece (suffix_cons c t).isInfix) htail
    rcases h.units c mem_cons_self with hword | rfl
    · refine ⟨fun w hne hw => ?_, fun _ _ => ?_⟩
      · rw [append_cons]
        exact hbehind (w ++ [c]) (by simp) (forall_mem_append.mpr ⟨hw, by simpa using hword⟩)
      · exact hbehind [c] (by simp) (by simpa using hword)
    · refine ⟨fun w hne hw => .dash hne hw (hwhole ?_ fun hhead => ?_), fun _ hhead => absurd rfl hhead⟩
      · rintro rfl
        exact hlast rfl
      · exact (isChain_cons.mp h.apart).1 _ hhead ⟨rfl, rfl⟩

theorem IsSlug.cut (h : IsSlug text) {k : Nat} (hk : 0 < k) :
    IsSlug (trimDashesEnd (text.take k)) := by
  refine isSlug_trimDashesEnd (h.front (List.take_prefix k text)) fun hnil => ?_
  obtain ⟨c, t, rfl⟩ := exists_cons_of_ne_nil h.ne
  obtain ⟨k, rfl⟩ := Nat.exists_eq_succ_of_ne_zero (Nat.ne_of_gt hk)
  have hdash := rdropWhile_eq_nil_iff.mp hnil c mem_cons_self
  exact h.head (congrArg some (beq_iff_eq.mp hdash))

theorem IsSlug.numbered {digits : JsString} (h : IsSlug text) (hne : digits ≠ [])
    (hdigits : ∀ c ∈ digits, isWordUnit c) : IsSlug (text ++ cu '-' :: digits) where
  units := forall_mem_append.mpr ⟨h.units,
    forall_mem_cons.mpr ⟨.inr rfl, fun c hc => .inl (hdigits c hc)⟩⟩
  apart := by
    refine h.apart.append (isChain_cons.mpr ⟨fun d hd hboth => ?_, ?_⟩) fun c hc d _ hboth => ?_
    · exact not_dash (hdigits d (List.mem_of_mem_head? hd)) hboth.2
    · exact List.Pairwise.isChain (pairwise_of_forall_mem_list fun c hc _ _ hboth =>
        not_dash (hdigits c hc) hboth.1)
    · exact h.last (hboth.1 ▸ hc)
  head := by
    obtain ⟨c, t, rfl⟩ := exists_cons_of_ne_nil h.ne
    exact h.head
  last := by
    obtain ⟨ds, d, rfl⟩ := eq_nil_or_concat digits |>.resolve_left hne
    rw [concat_eq_append, ← cons_append, ← append_assoc, getLast?_concat]
    exact fun heq => not_dash (hdigits d (by simp)) (some.inj heq)
  ne := by simp

theorem IsSlug.form (h : IsSlug text) : SlugForm text :=
  (slugForm_behind h.toTidy h.last).2 h.ne h.head

/-! ## Slugs -/

theorem sliceUpTo_natCast (text : JsString) (k : Nat) : sliceUpTo text k = text.take k := by
  rw [sliceUpTo, if_neg (by omega), Int.toNat_natCast]

theorem slugifySetName_isSlug (T : CaseMapping.Tables) (name : JsString) :
    IsSlug (slugifySetName T name) ∧ (slugifySetName T name).length ≤ SET_SLUG_MAX := by
  rw [slugifySetName]
  simp only [sliceUpTo_natCast]
  split
  · have hword : (js "set").all isWordUnit = true := by decide
    exact ⟨⟨⟨⟨fun c hc => .inl (all_eq_true.mp hword c hc), by decide⟩, by decide⟩, by decide,
      by decide⟩, by decide⟩
  · next hne =>
    have hstart : ∀ text, Headed (trimDashesStart (dashRuns false text)) := fun text =>
      { toTidy := (tidy_dashRuns false text).1.piece (dropWhile_suffix _).isInfix
        head := fun hhead => by
          have hnot := List.head?_dropWhile_not (· == cu '-') (dashRuns false text)
          rw [trimDashesStart] at hhead
          simp [hhead] at hnot }
    refine ⟨isSlug_trimDashesEnd (((hstart _).front (List.rdropWhile_prefix _ _)).front
      (List.take_prefix _ _)) hne, ?_⟩
    exact Nat.le_trans (List.rdropWhile_prefix _ _).length_le (by rw [length_take]; omega)

/-! ## Numbers -/

/-- As many numbers as there are rounds, and more, have ten digits or less. -/
def ROUNDS : Nat := 10 ^ 10

theorem length_number (hi : i < ROUNDS) : (js (toString i)).length ≤ 10 := by
  rw [js_toString, length_map]
  exact (Nat.length_toDigits_le_iff (by decide) (by decide)).mpr hi

theorem number_ne_nil (i : Nat) : js (toString i) ≠ [] := by
  rw [js_toString]
  exact fun hnil => Nat.toDigits_ne_nil (map_eq_nil_iff.mp hnil)

theorem isWordUnit_number (h : c ∈ js (toString i)) : isWordUnit c :=
  Bool.or_eq_true_iff.mpr (.inr (isDigit_of_mem_toString h))

/-! ## Candidates -/

def nameNumber (i : Nat) : JsString := cu '(' :: js (toString i) ++ [cu ')']

theorem mem_nameNumber (h : c ∈ nameNumber i) : c = cu '(' ∨ isDigit c ∨ c = cu ')' := by
  rcases mem_append.mp h with hfront | hclose
  · exact (mem_cons.mp hfront).imp_right fun hc => .inl (isDigit_of_mem_toString hc)
  · exact .inr (.inr (mem_singleton.mp hclose))

theorem caseless_nameNumber (h : c ∈ nameNumber i) : c < 128 ∧ toLowerCase [c] = [c] := by
  rcases mem_nameNumber h with rfl | hdigit | rfl
  · decide
  · obtain ⟨-, hle⟩ := (Bool.and_eq_true_iff.mp hdigit).imp of_decide_eq_true of_decide_eq_true
    have hle : c ≤ cu '9' := hle
    refine ⟨UInt16.lt_of_le_of_lt hle (by decide), ?_⟩
    have hupper : ¬ cu 'A' ≤ c := UInt16.not_le.mpr (UInt16.lt_of_le_of_lt hle (by decide))
    simp [toLowerCase, hupper]
  · decide

theorem length_nameCandidate (base : JsString) (hi : i < ROUNDS) :
    (nameCandidate base i).length ≤ SET_NAME_MAX := by
  have hnumber := length_number hi
  have hsuffix : (cu ' ' :: cu '(' :: js (toString i) ++ [cu ')']).length ≤ SET_NAME_MAX := by
    simp only [length_append, length_cons, length_nil, SET_NAME_MAX]
    omega
  rw [nameCandidate, ← Int.ofNat_sub hsuffix, sliceUpTo_natCast, length_append, length_take]
  omega

/-- **Names of different rounds differ**, in upper and lower case and whatever is cut off. -/
theorem nameCandidate_inj (T : CaseMapping.Tables) (base : JsString) (m n : Nat)
    (h : T.toLowerCase (nameCandidate base m) = T.toLowerCase (nameCandidate base n)) : m = n := by
  have hlower : ∀ i, ∃ front, T.toLowerCase (nameCandidate base i) =
      front ++ cu ' ' :: nameNumber i := fun i =>
    ⟨_, CaseMapping.toLowerCase_append T fun c hc => caseless_nameNumber hc⟩
  have hblank : ∀ i, cu ' ' ∉ nameNumber i := fun i hmem =>
    (mem_nameNumber hmem).elim (by decide) fun hor => hor.elim (by decide) (by decide)
  obtain ⟨front, hm⟩ := hlower m
  obtain ⟨front', hn⟩ := hlower n
  rw [hm, hn] at h
  have hnumber := (append_cons_inj_right (hblank m) (hblank n) h).2
  exact js_toString_inj (append_cancel_right (List.cons.inj hnumber).2)

theorem slugCandidate_eq (slug : JsString) (hi : i < ROUNDS) : slugCandidate slug i =
      trimDashesEnd (slug.take (SET_SLUG_MAX - (js (toString i)).length - 1)) ++
        cu '-' :: js (toString i) := by
  have hnumber := length_number hi
  have hroom : ((SET_SLUG_MAX : Int) - (cu '-' :: js (toString i)).length) =
      ((SET_SLUG_MAX - (js (toString i)).length - 1 : Nat) : Int) := by
    simp only [length_cons, SET_SLUG_MAX]
    omega
  rw [slugCandidate, hroom, sliceUpTo_natCast]

variable {slug : JsString}

/-- **A numbered slug is one.** -/
theorem slugCandidate_isSlug (h : IsSlug slug) (hi : i < ROUNDS) :
    IsSlug (slugCandidate slug i) ∧ (slugCandidate slug i).length ≤ SET_SLUG_MAX := by
  have hnumber := length_number hi
  rw [slugCandidate_eq slug hi]
  refine ⟨(h.cut (by simp only [SET_SLUG_MAX]; omega)).numbered (number_ne_nil i)
    fun c hc => isWordUnit_number hc, ?_⟩
  have hcut := (List.rdropWhile_prefix (· == cu '-')
    (slug.take (SET_SLUG_MAX - (js (toString i)).length - 1))).length_le
  rw [length_take] at hcut
  rw [length_append, length_cons, trimDashesEnd]
  simp only [SET_SLUG_MAX] at *
  omega

theorem slugCandidate_inj (slug : JsString) (m n : Nat)
    (h : id (slugCandidate slug m) = id (slugCandidate slug n)) : m = n := by
  have hdash : ∀ i, cu '-' ∉ js (toString i) := fun i hmem =>
    not_dash (isWordUnit_number hmem) rfl
  exact js_toString_inj (append_cons_inj_right (hdash m) (hdash n) h).2

/-! ## Single names -/

/-- What a name that is found promises. -/
structure FreshName (T : CaseMapping.Tables) (taken : List JsString) (name : JsString) : Prop where
  fresh : T.toLowerCase name ∉ taken.map T.toLowerCase
  short : name.length ≤ SET_NAME_MAX

structure FreshSlug (taken : List JsString) (slug : JsString) : Prop where
  fresh : slug ∉ taken
  short : slug.length ≤ SET_SLUG_MAX
  form : SlugForm slug

variable {taken : List JsString}

theorem uniqueSetName_fresh (T : CaseMapping.Tables) (name : JsString)
    (hshort : taken.length + 2 < ROUNDS) :
    ∃ found, FreshName T taken found ∧
      ∀ fuel, taken.length < fuel → uniqueSetName T fuel name taken = some found := by
  simp only [uniqueSetName, sliceUpTo_natCast]
  generalize hbase : (if (trim name).take SET_NAME_MAX = [] then js "Variables"
    else (trim name).take SET_NAME_MAX) = base
  have hlength : base.length ≤ SET_NAME_MAX := by
    rw [← hbase]
    split
    · decide
    · rw [length_take]
      exact Nat.min_le_left _ _
  split
  · obtain ⟨j, hj, hfree, hfound⟩ := firstFree_isSome (taken.map T.toLowerCase)
      (nameCandidate_inj T base) 2
    rw [length_map] at hj hfound
    exact ⟨_, ⟨hfree, length_nameCandidate base (by omega)⟩, hfound⟩
  · next hfree => exact ⟨base, ⟨hfree, hlength⟩, fun _ _ => rfl⟩

theorem uniqueSetSlug_fresh (h : IsSlug slug) (hlength : slug.length ≤ SET_SLUG_MAX)
    (hshort : taken.length + 2 < ROUNDS) :
    ∃ found, FreshSlug taken found ∧
      ∀ fuel, taken.length < fuel → uniqueSetSlug fuel slug taken = some found := by
  simp only [uniqueSetSlug]
  split
  · obtain ⟨j, hj, hfree, hfound⟩ := firstFree_isSome taken (slugCandidate_inj slug) 2
    obtain ⟨hslug, hle⟩ := slugCandidate_isSlug h (show 2 + j < ROUNDS by omega)
    exact ⟨_, ⟨hfree, hle, hslug.form⟩, hfound⟩
  · next hfree => exact ⟨slug, ⟨hfree, hlength, h.form⟩, fun _ _ => rfl⟩

/-! ## The whole plan -/

/-- What a plan promises, next to names and slugs that are taken. -/
structure Sound (T : CaseMapping.Tables) (nonEmpty : List EnvironmentRow)
    (projects : List ProjectRow) (names slugs : List JsString) (plan : List PlannedSet) : Prop where
  namesApart : (plan.map fun s => T.toLowerCase s.name).Nodup
  namesFree : ∀ s ∈ plan, FreshName T names s.name
  slugsApart : (plan.map (·.slug)).Nodup
  slugsFree : ∀ s ∈ plan, FreshSlug slugs s.slug
  sets : (plan.map fun s => (s.projectId, s.environmentIds)) =
    (projects.filter fun p => environmentIds nonEmpty p ≠ []).map
      fun p => (p.id, environmentIds nonEmpty p)

variable {names slugs : List JsString} {T : CaseMapping.Tables} {nonEmpty : List EnvironmentRow}
  {projects : List ProjectRow} {plan : List PlannedSet}

/-- The step: a set that is planned first, and the sets planned next to it. -/
theorem Sound.cons {p : ProjectRow} {name : JsString} (hne : environmentIds nonEmpty p ≠ [])
    (hname : FreshName T names name) (hslug : FreshSlug slugs slug)
    (h : Sound T nonEmpty projects (names ++ [name]) (slugs ++ [slug]) plan) :
    Sound T nonEmpty (p :: projects) names slugs
      (⟨p.id, name, slug, environmentIds nonEmpty p⟩ :: plan) where
  namesApart := by
    refine nodup_cons.mpr ⟨fun hmem => ?_, h.namesApart⟩
    obtain ⟨s, hs, hsame⟩ := mem_map.mp hmem
    exact (h.namesFree s hs).fresh (by simp [hsame])
  namesFree := forall_mem_cons.mpr ⟨hname, fun s hs =>
    ⟨fun hmem => (h.namesFree s hs).fresh (by simp [mem_map.mp hmem]), (h.namesFree s hs).short⟩⟩
  slugsApart := by
    refine nodup_cons.mpr ⟨fun hmem => ?_, h.slugsApart⟩
    obtain ⟨s, hs, hsame⟩ := mem_map.mp hmem
    exact (h.slugsFree s hs).fresh (by simp [hsame])
  slugsFree := forall_mem_cons.mpr ⟨hslug, fun s hs =>
    ⟨fun hmem => (h.slugsFree s hs).fresh (mem_append_left _ hmem), (h.slugsFree s hs).short,
      (h.slugsFree s hs).form⟩⟩
  sets := by
    rw [map_cons, h.sets, filter_cons_of_pos (by simpa using hne), map_cons]

/-- The loop finds a sound plan, and finds it in no more rounds than there are names. -/
theorem planSetsGo_sound (T : CaseMapping.Tables) (nonEmpty : List EnvironmentRow)
    (projects : List ProjectRow) {bound : Nat} (hnames : names.length + projects.length ≤ bound)
    (hslugs : slugs.length + projects.length ≤ bound) (hbound : bound + 2 < ROUNDS) :
    ∃ plan, Sound T nonEmpty projects names slugs plan ∧
      ∀ fuel, bound < fuel → planSetsGo T fuel nonEmpty projects names slugs = some plan := by
  induction projects generalizing names slugs with
  | nil => exact ⟨[], ⟨.nil, by simp, .nil, by simp, rfl⟩, fun _ _ => rfl⟩
  | cons p projects ih =>
    rw [length_cons] at hnames hslugs
    by_cases hnone : environmentIds nonEmpty p = []
    · obtain ⟨plan, hsound, hplan⟩ := @ih names slugs (by omega) (by omega)
      refine ⟨plan, { hsound with sets := ?_ }, fun fuel hfuel => ?_⟩
      · rw [hsound.sets, filter_cons_of_neg (by simpa using hnone)]
      · rw [planSetsGo, if_pos hnone, hplan fuel hfuel]
    · obtain ⟨name, hfreshName, hname⟩ := uniqueSetName_fresh T p.name
        (show names.length + 2 < ROUNDS by omega)
      obtain ⟨hslug, hle⟩ := slugifySetName_isSlug T name
      obtain ⟨slug, hfreshSlug, hfound⟩ := uniqueSetSlug_fresh hslug hle
        (show slugs.length + 2 < ROUNDS by omega)
      obtain ⟨plan, hsound, hplan⟩ := @ih (names ++ [name]) (slugs ++ [slug])
        (by simp; omega) (by simp; omega)
      refine ⟨_, hsound.cons hnone hfreshName hfreshSlug, fun fuel hfuel => ?_⟩
      rw [planSetsGo, if_neg hnone, hname fuel (by omega)]
      simp [hfound fuel (by omega), hplan fuel hfuel]

/-- The environment is in one set of its project; and where its id tells it apart from those of
other projects, no other set has the id. -/
def InOneSet (nonEmpty : List EnvironmentRow) (plan : List PlannedSet) (e : EnvironmentRow) : Prop :=
  plan.countP (fun s => s.projectId = e.projectId ∧ e.id ∈ s.environmentIds) = 1 ∧
    ((∀ e' ∈ nonEmpty, e'.id = e.id → e'.projectId = e.projectId) →
      plan.countP (fun s => e.id ∈ s.environmentIds) = 1)

theorem Sound.inOneSet (h : Sound T nonEmpty projects names slugs plan)
    (hids : (projects.map (·.id)).Nodup) {e : EnvironmentRow} (he : e ∈ nonEmpty)
    (hproject : e.projectId ∈ projects.map (·.id)) : InOneSet nonEmpty plan e := by
  have hmem : ∀ {p : ProjectRow}, p.id = e.projectId → e.id ∈ environmentIds nonEmpty p := fun hp =>
    mem_map_of_mem (mem_filter.mpr ⟨he, decide_eq_true hp.symm⟩)
  -- A test that only the sets of the project pass is passed once.
  have honce : ∀ q : JsString × List JsString → Bool,
      (∀ p ∈ projects, q (p.id, environmentIds nonEmpty p) = true ↔ p.id = e.projectId) →
      plan.countP (fun s => q (s.projectId, s.environmentIds)) = 1 := by
    intro q hq
    have hcount := congrArg (countP q) h.sets
    rw [countP_map, countP_map, countP_filter] at hcount
    calc plan.countP (fun s => q (s.projectId, s.environmentIds))
        = projects.countP fun p => q (p.id, environmentIds nonEmpty p) &&
            environmentIds nonEmpty p ≠ [] := hcount
      _ = projects.countP fun p => p.id == e.projectId := by
        refine countP_congr fun p hp => ?_
        rw [Bool.and_eq_true, hq p hp, beq_iff_eq, decide_eq_true_eq]
        exact and_iff_left_of_imp fun heq => ne_nil_of_mem (hmem heq)
      _ = (projects.map (·.id)).count e.projectId := by rw [List.count, countP_map]; rfl
      _ = 1 := count_eq_one_of_mem hids hproject
  refine ⟨honce (fun s => s.1 = e.projectId ∧ e.id ∈ s.2) fun p _ => ?_, fun hunique =>
    honce (fun s => e.id ∈ s.2) fun p _ => ?_⟩
  · rw [decide_eq_true_eq]
    exact and_iff_left_of_imp hmem
  · rw [decide_eq_true_eq]
    refine ⟨fun hid => ?_, hmem⟩
    obtain ⟨e', he', hsame⟩ := mem_map.mp hid
    obtain ⟨hrow, hp⟩ := mem_filter.mp he'
    exact (of_decide_eq_true hp).symm.trans (hunique e' hrow hsame)

/-- **The sets are planned.**  The searches end, names and slugs are new and short, and each
environment of a project is in one set. -/
theorem planSets_sound (T : CaseMapping.Tables) (projects : JsArray ProjectRow)
    (nonEmpty : JsArray EnvironmentRow) (takenNames takenSlugs : JsArray JsString) :
    ∃ rounds plan, (∀ fuel, rounds < fuel →
        planSets T fuel projects nonEmpty takenNames takenSlugs = some plan) ∧
      (plan.map fun s => T.toLowerCase s.name).Nodup ∧
      (∀ s ∈ plan, FreshName T takenNames.elems s.name) ∧
      (plan.map (·.slug)).Nodup ∧ (∀ s ∈ plan, FreshSlug takenSlugs.elems s.slug) ∧
      ((projects.elems.map (·.id)).Nodup → ∀ e ∈ nonEmpty.elems,
        e.projectId ∈ projects.elems.map (·.id) → InOneSet nonEmpty.elems plan e) := by
  have hp := projects.short
  have hn := takenNames.short
  have hs := takenSlugs.short
  obtain ⟨plan, hsound, hplan⟩ := planSetsGo_sound T nonEmpty.elems projects.elems
    (show takenNames.elems.length + projects.elems.length ≤ 2 ^ 33 by omega)
    (show takenSlugs.elems.length + projects.elems.length ≤ 2 ^ 33 by omega)
    (by simp only [ROUNDS]; omega)
  exact ⟨2 ^ 33, plan, hplan, hsound.namesApart, hsound.namesFree, hsound.slugsApart,
    hsound.slugsFree, fun hids _ he hproject => hsound.inOneSet hids he hproject⟩

end SetNames
end Aoox
