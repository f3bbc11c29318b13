import Aoox.JsString

/-! # Names of Docker volumes

Every mount that keeps data gets a named volume: the kind of its owner, the owner's
slug, for a stack the service, and the mount's name, joined with `_` after each `-`
was turned into one.  Databases and stacks have a volume of their own, and the files
of an owner's `file` mounts share one.

A name is its words joined with `_`, where a word ends at every `-` and `_`
(`splitOn_volumeNameFor`), so two mounts share a volume exactly when they spell the
same words.  They do when two names of one owner differ in `-` and `_` only
(`mounts_share_volume`), when a mount is called `files`, and when a mount spells
the rest of another owner's slug; nowhere else (`volumes_apart_iff`).
-/
open List Option
namespace Aoox.Volumes

open JsString

inductive Kind where
  | app | db | compose
  deriving DecidableEq, Repr

def Kind.key : Kind → JsString
  | .app => js "app"
  | .db => js "db"
  | .compose => js "compose"

def isSlugUnit (c : CodeUnit) : Bool :=
  (cu 'a' ≤ c && c ≤ cu 'z') || isDigit c || c = cu '-'

/-- A slug as it is generated or imported: `[a-z0-9-]+`. -/
structure Slug where
  text : JsString
  valid : text ≠ [] ∧ text.all isSlugUnit = true
  deriving DecidableEq

/-- Whose mounts these are. -/
structure Owner where
  kind : Kind
  slug : Slug
  deriving DecidableEq

/-- A `volume` mount; one of a stack names the service it belongs to. -/
structure VolumeMount where
  owner : Owner
  service : Option JsString
  name : JsString
  perService : service.isSome = true ↔ owner.kind = .compose
  named : name ≠ [] ∧ service ≠ some []
  deriving DecidableEq

/-- Every `-` becomes `_`. -/
def underscored (text : JsString) : JsString := text.map fun c => if c = cu '-' then cu '_' else c

def prefixFor (o : Owner) : JsString :=
  js "aoox_" ++ underscored (o.kind.key ++ cu '_' :: o.slug.text)

/-- Named volume for a `volume` mount. -/
def volumeNameFor (m : VolumeMount) : JsString :=
  prefixFor m.owner ++ cu '_' ::
    ((m.service.map fun s => underscored s ++ [cu '_']).getD [] ++ underscored m.name)

/-- One volume per owner holds every `file` mount. -/
def filesVolumeFor (o : Owner) : JsString := prefixFor o ++ js "_files"

def volumeNameForDb (slug : Slug) : JsString := js "aoox_db_" ++ underscored slug.text

/-- Named volume holding the checkout of a stack. -/
def composeVolumeFor (slug : Slug) : JsString := js "aoox_compose_" ++ underscored slug.text

/-! ## Words -/

def isSeparator (c : CodeUnit) : Bool := c = cu '-' || c = cu '_'

/-- The text cut at every `-` and `_`. -/
def words (text : JsString) : List JsString := text.splitOnP isSeparator

theorem splitOn_underscored (text : JsString) : (underscored text).splitOn (cu '_') = words text := by
  induction text with
  | nil => rfl
  | cons c cs ih =>
    have ih' : (cs.map fun c => if c = cu '-' then cu '_' else c).splitOn (cu '_') = words cs := ih
    simp only [underscored, map_cons, splitOn_cons_eq_if_modifyHead, ih', words,
      splitOnP_cons_eq_if_modifyHead, isSeparator]
    by_cases hdash : c = cu '-'
    · simp [hdash]
    · simp [hdash]

theorem words_ne_nil (text : JsString) : words text ≠ [] := splitOnP_ne_nil isSeparator text

variable {text : JsString}

theorem not_isSeparator (h : text.any isSeparator = false) : ∀ c ∈ text, isSeparator c = false := by
  intro c hc
  exact Bool.eq_false_iff.mpr (any_eq_false.mp h c hc)

theorem words_eq_singleton (h : ∀ c ∈ text, isSeparator c = false) :
    words text = [text] := splitOnP_eq_singleton h

/-- What a mount spells behind its owner's slug. -/
def VolumeMount.tail (m : VolumeMount) : List JsString :=
  (m.service.map words).getD [] ++ words m.name

/-- The words every volume of an owner begins with. -/
def Owner.spelling (o : Owner) : List JsString :=
  js "aoox" :: o.kind.key :: words o.slug.text

theorem splitOn_prefixFor (o : Owner) : (prefixFor o).splitOn (cu '_') = o.spelling := by
  have hkind : words (o.kind.key ++ cu '_' :: o.slug.text) = o.kind.key :: words o.slug.text := by
    refine splitOnP_append_cons_of_forall_mem (not_isSeparator ?_) (cu '_') rfl _
    cases o.kind <;> decide
  have hsplit : (js "aoox" ++ cu '_' :: underscored (o.kind.key ++ cu '_' :: o.slug.text)).splitOn
      (cu '_') = [js "aoox"] ++ words (o.kind.key ++ cu '_' :: o.slug.text) := by
    rw [splitOn_append_cons_self, splitOn_underscored]
    rfl
  rw [hkind] at hsplit
  exact hsplit

/-- **A volume name is its words.** -/
theorem splitOn_volumeNameFor (m : VolumeMount) :
    (volumeNameFor m).splitOn (cu '_') = m.owner.spelling ++ m.tail := by
  unfold volumeNameFor VolumeMount.tail
  rw [splitOn_append_cons_self, splitOn_prefixFor]
  cases m.service with
  | none => simp [splitOn_underscored]
  | some s => simp [splitOn_underscored, splitOn_append_cons_self]

theorem splitOn_filesVolumeFor (o : Owner) :
    (filesVolumeFor o).splitOn (cu '_') = o.spelling ++ [js "files"] := by
  have hsplit := @List.splitOn_append_cons_self _ _ _ (cu '_') (prefixFor o) (js "files")
  rw [splitOn_prefixFor] at hsplit
  exact hsplit

theorem splitOn_volumeNameForDb (slug : Slug) :
    (volumeNameForDb slug).splitOn (cu '_') = Owner.spelling ⟨.db, slug⟩ :=
  splitOn_prefixFor ⟨.db, slug⟩

theorem splitOn_composeVolumeFor (slug : Slug) :
    (composeVolumeFor slug).splitOn (cu '_') = Owner.spelling ⟨.compose, slug⟩ :=
  splitOn_prefixFor ⟨.compose, slug⟩

/-- Texts with the same words between underscores are the same. -/
theorem eq_iff_splitOn_eq {a b : JsString} : a = b ↔ a.splitOn (cu '_') = b.splitOn (cu '_') := by
  refine ⟨fun h => by rw [h], fun h => ?_⟩
  have hjoin := congrArg (intercalate [cu '_']) h
  rwa [intercalate_splitOn, intercalate_splitOn] at hjoin

/-! ## Which volumes are apart -/

/-- The applications, databases and stacks there are, with their volume mounts. -/
structure Fleet where
  owners : List Owner
  mounts : List VolumeMount
  owned : ∀ m ∈ mounts, m.owner ∈ owners

/-- Distinct mounts have distinct volumes, and none is a volume aoox keeps for an
owner. -/
structure Fleet.Apart (f : Fleet) : Prop where
  mounts : ∀ x ∈ f.mounts, ∀ y ∈ f.mounts, x ≠ y → volumeNameFor x ≠ volumeNameFor y
  files : ∀ x ∈ f.mounts, ∀ o ∈ f.owners, volumeNameFor x ≠ filesVolumeFor o
  data : ∀ x ∈ f.mounts, ∀ o ∈ f.owners, o.kind = .db → volumeNameFor x ≠ volumeNameForDb o.slug
  checkout : ∀ x ∈ f.mounts, ∀ o ∈ f.owners, o.kind = .compose →
    volumeNameFor x ≠ composeVolumeFor o.slug

/-- The owner's slug goes on where the other's ends. -/
def Owner.Extends (o o' : Owner) (rest : List JsString) : Prop :=
  o.kind = o'.kind ∧ rest ≠ [] ∧ words o.slug.text = words o'.slug.text ++ rest

/-- What keeps volumes apart. -/
structure Fleet.SpelledApart (f : Fleet) : Prop where
  /-- No two mounts of one owner spell the same words. -/
  own : ∀ x ∈ f.mounts, ∀ y ∈ f.mounts, x.owner = y.owner → x ≠ y → x.tail ≠ y.tail
  /-- No mount of an application or a database is called `files`. -/
  files : ∀ x ∈ f.mounts, x.owner.kind ≠ .compose → x.name ≠ js "files"
  /-- No mount spells the rest of a longer slug, alone or with what follows it. -/
  others : ∀ x ∈ f.mounts, ∀ o ∈ f.owners, ∀ rest, o.Extends x.owner rest →
    x.tail ≠ rest ++ [js "files"] ∧ (o.kind ≠ .app → x.tail ≠ rest) ∧
      ∀ y ∈ f.mounts, y.owner = o → x.tail ≠ rest ++ y.tail

theorem VolumeMount.tail_ne_nil (m : VolumeMount) : m.tail ≠ [] := by
  simp [VolumeMount.tail, words_ne_nil]

theorem slug_eq_of_words_eq {a b : Slug} (h : words a.text = words b.text) : a = b := by
  have hplain : ∀ s : Slug, ∀ c ∈ s.text, c ≠ cu '_' := by
    rintro s c hc rfl
    have := all_eq_true.mp s.valid.2 _ hc
    revert this
    decide
  have hunder : underscored a.text = underscored b.text := by
    rw [eq_iff_splitOn_eq, splitOn_underscored, splitOn_underscored, h]
  -- underscores come from dashes only, so they can be turned back
  have hback : ∀ s : Slug,
      (underscored s.text).map (fun c => if c = cu '_' then cu '-' else c) = s.text := by
    intro s
    rw [underscored, List.map_map]
    refine (map_congr_left fun c hc => ?_).trans (map_id _)
    by_cases hdash : c = cu '-'
    · simp [hdash]
    · simp [hdash, hplain s c hc]
  have htext : a.text = b.text := by rw [← hback a, hunder, hback b]
  cases a
  cases b
  simpa using htext

variable {o o' : Owner}

theorem owner_eq (hkind : o.kind = o'.kind)
    (hwords : words o.slug.text = words o'.slug.text) : o = o' := by
  have hslug := slug_eq_of_words_eq hwords
  cases o
  cases o'
  simp only at hkind hslug
  rw [hkind, hslug]

/-- Two spellings agree when the owners are one and so is the rest, or one slug
goes on with what the other spells. -/
theorem words_append_eq_iff {t t' : List JsString} : o.spelling ++ t = o'.spelling ++ t' ↔
      (o = o' ∧ t = t') ∨ (∃ rest, o'.Extends o rest ∧ t = rest ++ t') ∨
        ∃ rest, o.Extends o' rest ∧ t' = rest ++ t := by
  have hkey : ∀ k k' : Kind, k.key = k'.key ↔ k = k' := by
    intro k k'
    cases k <;> cases k' <;> decide
  simp only [Owner.spelling, cons_append, List.cons.injEq, true_and, hkey]
  constructor
  · rintro ⟨hkind, h⟩
    rcases append_eq_append_iff.mp h with ⟨rest, hw, ht⟩ | ⟨rest, hw, ht⟩
    · by_cases hrest : rest = []
      · subst hrest
        exact Or.inl ⟨owner_eq hkind (by simpa using hw.symm), by simpa using ht⟩
      · exact Or.inr (Or.inl ⟨rest, ⟨hkind.symm, hrest, hw⟩, ht⟩)
    · by_cases hrest : rest = []
      · subst hrest
        exact Or.inl ⟨owner_eq hkind (by simpa using hw), by simpa using ht.symm⟩
      · exact Or.inr (Or.inr ⟨rest, ⟨hkind, hrest, hw⟩, ht⟩)
  · rintro (⟨rfl, rfl⟩ | ⟨rest, ⟨hkind, -, hw⟩, rfl⟩ | ⟨rest, ⟨hkind, -, hw⟩, rfl⟩)
    · exact ⟨rfl, rfl⟩
    · exact ⟨hkind.symm, by rw [hw, append_assoc]⟩
    · exact ⟨hkind, by rw [hw, append_assoc]⟩

variable {x : VolumeMount}

theorem volumeNameFor_eq_iff {y : VolumeMount} : volumeNameFor x = volumeNameFor y ↔
    (x.owner = y.owner ∧ x.tail = y.tail) ∨
      (∃ rest, y.owner.Extends x.owner rest ∧ x.tail = rest ++ y.tail) ∨
        ∃ rest, x.owner.Extends y.owner rest ∧ y.tail = rest ++ x.tail := by
  rw [eq_iff_splitOn_eq, splitOn_volumeNameFor, splitOn_volumeNameFor, words_append_eq_iff]

/-- Only a whole mount spells one word, and only an application's or a database's. -/
theorem tail_eq_files_iff :
    x.tail = [js "files"] ↔ x.owner.kind ≠ .compose ∧ x.name = js "files" := by
  have hplain : words (js "files") = [js "files"] := words_eq_singleton (not_isSeparator (by decide))
  cases hservice : x.service with
  | some s =>
    have hkind : x.owner.kind = .compose := x.perService.mp (by rw [hservice]; rfl)
    simp only [VolumeMount.tail, hservice, map_some, getD_some, hkind, ne_eq,
      not_true_eq_false, false_and, iff_false]
    intro h
    have hlen := congrArg List.length h
    have hs := length_pos_iff.mpr (words_ne_nil s)
    have hn := length_pos_iff.mpr (words_ne_nil x.name)
    simp only [length_append, length_singleton] at hlen
    omega
  | none =>
    have hkind : x.owner.kind ≠ .compose := fun h => by
      have := x.perService.mpr h
      rw [hservice] at this
      cases this
    simp only [VolumeMount.tail, hservice, map_none, getD_none, nil_append, hkind,
      ne_eq, not_false_eq_true, true_and]
    constructor
    · intro h
      have hunder : underscored x.name = js "files" := by
        rw [eq_iff_splitOn_eq, splitOn_underscored, h]
        decide
      -- no underscore in it, so no dash was turned into one
      have hfix : ∀ text : JsString, cu '_' ∉ underscored text → underscored text = text := by
        intro text hno
        refine (map_congr_left fun c hc => ?_).trans (map_id _)
        by_cases hdash : c = cu '-'
        · exact absurd (mem_map.mpr ⟨c, hc, by simp [hdash]⟩) hno
        · simp [hdash]
      rw [← hunder]
      exact (hfix x.name (by rw [hunder]; decide)).symm
    · intro h
      rw [h, hplain]

theorem volumeNameFor_eq_filesVolumeFor_iff : volumeNameFor x = filesVolumeFor o ↔
      (x.owner = o ∧ x.owner.kind ≠ .compose ∧ x.name = js "files") ∨
        ∃ rest, o.Extends x.owner rest ∧ x.tail = rest ++ [js "files"] := by
  rw [eq_iff_splitOn_eq, splitOn_volumeNameFor, splitOn_filesVolumeFor, words_append_eq_iff,
    tail_eq_files_iff]
  have hshort : ¬ ∃ rest, x.owner.Extends o rest ∧ [js "files"] = rest ++ x.tail := by
    rintro ⟨rest, ⟨-, hrest, -⟩, h⟩
    have hlen := congrArg List.length h
    have hr := length_pos_iff.mpr hrest
    have ht := length_pos_iff.mpr x.tail_ne_nil
    simp only [length_append, length_singleton] at hlen
    omega
  rw [or_iff_left hshort]

/-- A mount has the volume of an owner itself exactly when it spells the rest of
its slug. -/
theorem volumeNameFor_eq_own_iff {volume : JsString}
    (hvolume : volume.splitOn (cu '_') = o.spelling) :
    volumeNameFor x = volume ↔ ∃ rest, o.Extends x.owner rest ∧ x.tail = rest := by
  have hspell := @words_append_eq_iff x.owner o x.tail []
  rw [eq_iff_splitOn_eq, splitOn_volumeNameFor, hvolume, ← append_nil o.spelling, hspell]
  constructor
  · rintro (⟨-, h⟩ | ⟨rest, hext, h⟩ | ⟨rest, -, h⟩)
    · exact absurd h x.tail_ne_nil
    · exact ⟨rest, hext, by simpa using h⟩
    · exact absurd (append_eq_nil_iff.mp h.symm).2 x.tail_ne_nil
  · rintro ⟨rest, hext, h⟩
    exact Or.inr (Or.inl ⟨rest, hext, by simpa using h⟩)

/-- **When no volume is shared.** -/
theorem volumes_apart_iff (f : Fleet) : f.Apart ↔ f.SpelledApart := by
  constructor
  · intro h
    refine ⟨?_, ?_, ?_⟩
    · intro x hx y hy howner hne htail
      exact h.mounts x hx y hy hne (volumeNameFor_eq_iff.mpr (Or.inl ⟨howner, htail⟩))
    · intro x hx hkind hname
      exact h.files x hx x.owner (f.owned x hx)
        (volumeNameFor_eq_filesVolumeFor_iff.mpr (Or.inl ⟨rfl, hkind, hname⟩))
    · intro x hx o ho rest hext
      refine ⟨fun htail => ?_, fun hkind htail => ?_, fun y hy howner htail => ?_⟩
      · exact h.files x hx o ho (volumeNameFor_eq_filesVolumeFor_iff.mpr (Or.inr ⟨rest, hext, htail⟩))
      · obtain ⟨kind, slug⟩ := o
        cases kind with
        | app => exact hkind rfl
        | db =>
          exact h.data x hx _ ho rfl
            ((volumeNameFor_eq_own_iff (splitOn_volumeNameForDb slug)).mpr ⟨rest, hext, htail⟩)
        | compose =>
          exact h.checkout x hx _ ho rfl
            ((volumeNameFor_eq_own_iff (splitOn_composeVolumeFor slug)).mpr ⟨rest, hext, htail⟩)
      · subst howner
        have hne : x ≠ y := by
          rintro rfl
          obtain ⟨-, hrest, hw⟩ := hext
          simp [hrest] at hw
        exact h.mounts x hx y hy hne
          (volumeNameFor_eq_iff.mpr (Or.inr (Or.inl ⟨rest, hext, htail⟩)))
  · intro h
    refine ⟨?_, ?_, ?_, ?_⟩
    · intro x hx y hy hne heq
      rcases volumeNameFor_eq_iff.mp heq with ⟨howner, htail⟩ | ⟨rest, hext, htail⟩ | ⟨rest, hext, htail⟩
      · exact h.own x hx y hy howner hne htail
      · exact (h.others x hx y.owner (f.owned y hy) rest hext).2.2 y hy rfl htail
      · exact (h.others y hy x.owner (f.owned x hx) rest hext).2.2 x hx rfl htail
    · intro x hx o ho heq
      rcases volumeNameFor_eq_filesVolumeFor_iff.mp heq with ⟨-, hkind, hname⟩ | ⟨rest, hext, htail⟩
      · exact h.files x hx hkind hname
      · exact (h.others x hx o ho rest hext).1 htail
    · intro x hx o ho hkind heq
      obtain ⟨rest, hext, htail⟩ := (volumeNameFor_eq_own_iff (o := o)
        (by rw [splitOn_volumeNameForDb, ← hkind])).mp heq
      exact (h.others x hx o ho rest hext).2.1 (by rw [hkind]; decide) htail
    · intro x hx o ho hkind heq
      obtain ⟨rest, hext, htail⟩ := (volumeNameFor_eq_own_iff (o := o)
        (by rw [splitOn_composeVolumeFor, ← hkind])).mp heq
      exact (h.others x hx o ho rest hext).2.1 (by rw [hkind]; decide) htail

def shop : Owner := ⟨.app, ⟨js "shop-x7k2q9", by decide⟩⟩

def shopMount (name : JsString) (h : name ≠ []) : VolumeMount :=
  ⟨shop, none, name, by decide, ⟨h, by decide⟩⟩

def twoMounts : Fleet where
  owners := [shop]
  mounts := [shopMount (js "data-1") (by decide), shopMount (js "data_1") (by decide)]
  owned m hm := by
    simp only [List.mem_cons, List.not_mem_nil, or_false] at hm ⊢
    rcases hm with rfl | rfl <;> rfl

theorem mounts_share_volume : ¬ ∀ f : Fleet, f.Apart := by
  intro h
  have hne : shopMount (js "data-1") (by decide) ≠ shopMount (js "data_1") (by decide) := by decide
  exact (h twoMounts).mounts _ (by simp [twoMounts]) _ (by simp [twoMounts]) hne (by decide)

end Aoox.Volumes
