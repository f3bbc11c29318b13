import Aoox.Replacing
import Mathlib.Data.List.Sort

/-! # Replacing one word after another

Several words are replaced in a text, one after another, all by the same mask.  Where no word
shares anything with the mask, an occurrence of a word in the masked text was there before, so a
mask can be kept as one mark that is no letter (`render_mark`).  Two words that cannot share
anything in a text may be replaced in either order (`mark_comm`), so the order does not matter
where the words that change places are such words (`foldl_insertionSort`).
-/
namespace Marking
open Replacing List Option
variable {α : Type}

/-- Two words that can share something in a text: one lies in the other, or ends as the other
begins. -/
def Meets (f g : List α) : Prop :=
  f <:+: g ∨ g <:+: f ∨ (∃ x, x ≠ [] ∧ x <:+ f ∧ x <+: g) ∨ ∃ x, x ≠ [] ∧ x <:+ g ∧ x <+: f

variable {g : List α}

theorem Meets.symm {f : List α} (h : Meets f g) : Meets g f := by
  rcases h with h | h | h | h
  · exact Or.inr (Or.inl h)
  · exact Or.inl h
  · exact Or.inr (Or.inr (Or.inr h))
  · exact Or.inr (Or.inr (Or.inl h))

theorem infix_map_some_iff {f : List α} : f.map some <:+: g.map some ↔ f <:+: g := by
  rw [infix_map_iff]
  constructor
  · rintro ⟨l, hl, heq⟩
    rwa [(map_injective_iff.mpr (some_injective α)) heq]
  · exact fun h => ⟨f, h, rfl⟩

theorem Meets.of_map_some {f : List α} (h : Meets (f.map some) (g.map some)) : Meets f g := by
  have hpart : ∀ {f g : List α}, (∃ x, x ≠ [] ∧ x <:+ f.map some ∧ x <+: g.map some) →
      ∃ x, x ≠ [] ∧ x <:+ f ∧ x <+: g := by
    rintro f g ⟨x, hx, hf, hg⟩
    obtain ⟨y, hy, rfl⟩ := suffix_map_iff.mp hf
    exact ⟨y, by simpa using hx, hy,
      (prefix_map_iff_of_injective (some_injective α)).mp hg⟩
  rcases h with h | h | h | h
  · exact Or.inl (infix_map_some_iff.mp h)
  · exact Or.inr (Or.inl (infix_map_some_iff.mp h))
  · exact Or.inr (Or.inr (Or.inl (hpart h)))
  · exact Or.inr (Or.inr (Or.inr (hpart h)))

/-! ## Marks -/

/-- The text with a mask for every mark. -/
def render (m : List α) (t : List (Option α)) : List α := t.flatMap fun c => c.elim m fun x => [x]

variable {m f g : List α} {t : List (Option α)}

@[simp]
theorem render_nil (m : List α) : render m [] = [] := rfl

@[simp]
theorem render_some (m : List α) (c : α) (t : List (Option α)) :
    render m (some c :: t) = c :: render m t := rfl

@[simp]
theorem render_none (m : List α) (t : List (Option α)) : render m (none :: t) = m ++ render m t :=
    rfl

@[simp]
theorem render_append (m : List α) (t u : List (Option α)) :
    render m (t ++ u) = render m t ++ render m u := flatMap_append

@[simp]
theorem render_map_some (m f : List α) : render m (f.map some) = f := by
  induction f with
  | nil => rfl
  | cons c f ih => rw [map_cons, render_some, ih]

/-- The end of a word that begins a masked text begins the marked one. -/
theorem map_some_prefix_of_render (hm : ¬ Meets f m) {x : List α} (hx : x <:+ f)
    (h : x <+: render m t) : x.map some <+: t := by
  induction t generalizing x with
  | nil =>
    rw [render_nil, prefix_nil] at h
    rw [h]
    exact prefix_refl _
  | cons c t ih =>
    cases x with
    | nil => exact nil_prefix
    | cons y x =>
      cases c with
      | some c =>
        obtain ⟨rfl, hrest⟩ := cons_prefix_cons.mp h
        rw [map_cons]
        exact cons_prefix_cons.mpr ⟨rfl, ih ((suffix_cons y x).trans hx) hrest⟩
      | none =>
        exfalso
        rcases prefix_or_prefix_of_prefix h (prefix_append m (render m t)) with hin | hout
        · exact hm (Or.inr (Or.inr (Or.inl ⟨y :: x, cons_ne_nil y x, hx, hin⟩)))
        · exact hm (Or.inr (Or.inl (hout.isInfix.trans hx.isInfix)))

/-- **An occurrence of a word in the masked text is one in the marked text.** -/
theorem map_some_infix_of_render (hm : ¬ Meets f m) (h : f <:+: render m t) :
    f.map some <:+: t := by
  induction t with
  | nil =>
    rw [render_nil, infix_nil] at h
    rw [h]
    exact infix_refl _
  | cons c t ih =>
    cases c with
    | some c =>
      rcases infix_cons_iff.mp h with hp | hin
      · exact (map_some_prefix_of_render (t := some c :: t) hm (suffix_refl f) hp).isInfix
      · exact (ih hin).trans (suffix_cons _ _).isInfix
    | none =>
      rcases infix_append_split h with hin | hin | ⟨x, y, hx, -, rfl, hsuffix, -⟩
      · exact absurd (Or.inl hin) hm
      · exact (ih hin).trans (suffix_cons _ _).isInfix
      · exact absurd (Or.inr (Or.inr (Or.inr ⟨x, hx, hsuffix, prefix_append x y⟩))) hm

section Decidable
variable [DecidableEq α]

/-- A word behind another one does not straddle its end. -/
theorem replaceSublist_append_of_apart (hf : f ≠ []) (h : ¬ Meets f g) (r t : List α) :
    replaceSublist f r (g ++ t) = g ++ replaceSublist f r t := by
  rw [replaceSublist_append hf r, replaceSublist_eq_self r fun hin => h (Or.inl hin)]
  rintro ⟨u, v, hu, -, rfl, hug, -⟩
  exact h (Or.inr (Or.inr (Or.inr ⟨u, hu, hug, prefix_append u v⟩)))

/-- Replaces a word by a mark. -/
def mark (t : List (Option α)) (f : List α) : List (Option α) :=
    replaceSublist (f.map some) [none] t

/-- Replaces several words, one after another. -/
def markAll (fs : List (List α)) (t : List (Option α)) : List (Option α) := fs.foldl mark t

omit [DecidableEq α] in
theorem avoids_mark (f : List α) : Avoids [none] (f.map some) := by
  intro x hx
  rw [mem_singleton.mp hx]
  simp

omit [DecidableEq α] in
theorem map_some_ne_nil (hf : f ≠ []) : f.map some ≠ [] := by simpa using hf

theorem mark_hit (hf : f ≠ []) (t : List (Option α)) :
    mark (f.map some ++ t) f = none :: mark t f :=
  replaceSublist_hit (map_some_ne_nil hf) _ _

theorem mark_miss {c : Option α} (h : ¬ f.map some <+: c :: t) : mark (c :: t) f = c :: mark t f :=
  replaceSublist_miss _ h

theorem mark_none (hf : f ≠ []) (t : List (Option α)) : mark (none :: t) f = none :: mark t f := by
  refine mark_miss ?_
  obtain ⟨x, f', rfl⟩ := exists_cons_of_ne_nil hf
  rw [map_cons, cons_prefix_cons]
  rintro ⟨hx, -⟩
  cases hx

theorem mark_eq_self (h : ¬ f.map some <:+: t) : mark t f = t := replaceSublist_eq_self _ h

/-- **A word that shares nothing with the mask may be marked first and masked later.** -/
theorem render_mark (hf : f ≠ []) (hm : ¬ Meets f m) (t : List (Option α)) :
    render m (mark t f) = replaceSublist f m (render m t) := by
  induction t using sublist_induction (map_some_ne_nil hf) with
  | nil => rfl
  | hit t ih =>
    rw [mark_hit hf, render_none, render_append, render_map_some, replaceSublist_hit hf, ih]
  | miss c t hmiss ih =>
    rw [mark_miss hmiss]
    cases c with
    | none =>
      rw [render_none, render_none, replaceSublist_append_of_apart hf hm, ih]
    | some c =>
      rw [render_some, render_some, replaceSublist_miss, ih]
      intro hp
      exact hmiss (map_some_prefix_of_render (t := some c :: t) hm (suffix_refl f) hp)

variable {fs : List (List α)}

theorem render_markAll (hfs : ∀ f ∈ fs, f ≠ [] ∧ ¬ Meets f m) (t : List (Option α)) :
    render m (markAll fs t) = fs.foldl (fun t f => replaceSublist f m t) (render m t) := by
  induction fs generalizing t with
  | nil => rfl
  | cons f fs ih =>
    obtain ⟨hf, hm⟩ := hfs f mem_cons_self
    rw [foldl_cons, ← render_mark hf hm]
    exact ih (fun g hg => hfs g (mem_cons_of_mem _ hg)) _

/-- **No marked word is left.** -/
theorem not_infix_markAll (hne : ∀ f ∈ fs, f ≠ []) (hf : f ∈ fs)
    (t : List (Option α)) : ¬ f.map some <:+: markAll fs t := by
  induction fs generalizing t with
  | nil => cases hf
  | cons g fs ih =>
    have hrest : ∀ f ∈ fs, f ≠ [] := fun f hf => hne f (mem_cons_of_mem _ hf)
    rcases mem_cons.mp hf with rfl | hf
    · intro h
      have hback : ∀ (gs : List (List α)) (u : List (Option α)), f.map some <:+: markAll gs u →
          f.map some <:+: u := by
        intro gs
        induction gs with
        | nil => exact fun _ h => h
        | cons g gs ih =>
          intro u h
          exact infix_of_infix_replaceAll (cons_ne_nil _ _) (avoids_mark f) u (ih _ h)
      exact not_infix_replaceSublist (map_some_ne_nil (hne f mem_cons_self))
        (cons_ne_nil _ _) (avoids_mark f) t (hback fs _ h)
    · exact ih hrest hf _

/-! ## The first word that occurs -/

/-- The first occurrence is the first mark. -/
theorem mark_split (hf : f ≠ []) (h : f.map some <:+: t) :
    ∃ a b, t = a ++ f.map some ++ b ∧ mark t f = a ++ none :: mark b f := by
  induction t using sublist_induction (map_some_ne_nil hf) with
  | nil => exact absurd (infix_nil.mp h) (map_some_ne_nil hf)
  | hit t _ => exact ⟨[], t, rfl, mark_hit hf t⟩
  | miss c t hmiss ih =>
    rcases infix_cons_iff.mp h with hp | hin
    · exact absurd hp hmiss
    · obtain ⟨a, b, rfl, hmark⟩ := ih hin
      exact ⟨c :: a, b, rfl, by rw [mark_miss hmiss, hmark, cons_append]⟩

theorem mark_split_text {text : List α} (hf : f ≠ []) (h : f <:+: text) :
    ∃ a b, text = a ++ f ++ b ∧ mark (text.map some) f =
      a.map some ++ none :: mark (b.map some) f := by
  obtain ⟨a, b, hsplit, hmark⟩ := mark_split hf (infix_map_some_iff.mpr h)
  obtain ⟨front, b, rfl, hfront, rfl⟩ := map_eq_append_iff.mp hsplit
  obtain ⟨a, f', rfl, rfl, hf'⟩ := map_eq_append_iff.mp hfront
  obtain rfl : f' = f := map_injective_iff.mpr (some_injective α) hf'
  exact ⟨a, b, rfl, hmark⟩

theorem prefix_of_prefix_mark {t : List (Option α)} (h : g.map some <+: mark t f) :
    g.map some <+: t :=
  prefix_of_prefix_replaceAll (cons_ne_nil _ _) (avoids_mark g) _ h

omit [DecidableEq α] in
/-- A word does not reach over a mark. -/
theorem prefix_before_mark {a b : List (Option α)} (h : g.map some <+: a ++ none :: b) :
    g.map some <+: a := by
  rcases prefix_append_split h with h | ⟨v, hv, hvb⟩
  · exact h
  · cases v with
    | nil => rw [hv, append_nil]
    | cons c v =>
      obtain ⟨rfl, -⟩ := cons_prefix_cons.mp hvb
      have hmem : none ∈ g.map some := hv ▸ mem_append_right a mem_cons_self
      simp at hmem

/-- A letter that no word begins with stays where it is. -/
theorem markAll_cons {c : Option α} (h : ∀ f ∈ fs, ¬ f.map some <+: c :: t) :
    ∃ t', markAll fs (c :: t) = c :: t' := by
  induction fs generalizing t with
  | nil => exact ⟨t, rfl⟩
  | cons f fs ih =>
    have hmiss := mark_miss (h f mem_cons_self)
    show ∃ t', markAll fs (mark (c :: t) f) = c :: t'
    rw [hmiss]
    refine ih fun g hg hp => ?_
    rw [← hmiss] at hp
    exact h g (mem_cons_of_mem _ hg) (prefix_of_prefix_mark hp)

/-- Words are replaced on both sides of a mark on their own. -/
theorem mark_around (hf : f ≠ []) (a b : List (Option α)) :
    mark (a ++ none :: b) f = mark a f ++ none :: mark b f := by
  rw [← mark_none hf b]
  refine replaceSublist_append (map_some_ne_nil hf) _ ?_
  rintro ⟨u, v, -, hv, huv, -, hvb⟩
  obtain ⟨x, v, rfl⟩ := exists_cons_of_ne_nil hv
  obtain ⟨rfl, -⟩ := cons_prefix_cons.mp hvb
  have hmem : none ∈ f.map some := by
    rw [huv]
    exact mem_append_right u mem_cons_self
  simp at hmem

theorem markAll_around (hne : ∀ f ∈ fs, f ≠ []) (a b : List (Option α)) :
    markAll fs (a ++ none :: b) = markAll fs a ++ none :: markAll fs b := by
  induction fs generalizing a b with
  | nil => rfl
  | cons f fs ih =>
    show markAll fs (mark (a ++ none :: b) f) = _
    rw [mark_around (hne f mem_cons_self), ih fun g hg => hne g (mem_cons_of_mem _ hg)]
    rfl

theorem markAll_eq_self (h : ∀ f ∈ fs, ¬ f.map some <:+: t) : markAll fs t = t := by
  induction fs with
  | nil => rfl
  | cons f fs ih =>
    show markAll fs (mark t f) = t
    rw [mark_eq_self (h f mem_cons_self)]
    exact ih fun g hg => h g (mem_cons_of_mem _ hg)

theorem mark_cons (hf : f ≠ []) (c : Option α) (t : List (Option α)) :
    (∃ t', c :: t = f.map some ++ t' ∧ mark (c :: t) f = none :: mark t' f) ∨
      mark (c :: t) f = c :: mark t f := by
  by_cases hhit : f.map some <+: c :: t
  · obtain ⟨t', ht'⟩ := hhit
    refine Or.inl ⟨t', ht'.symm, ?_⟩
    rw [← ht', mark_hit hf]
  · exact Or.inr (mark_miss hhit)

/-- Only a whole word leaves a mark and nothing else. -/
theorem eq_of_mark_eq_single (hf : f ≠ []) (h : mark t f = [none]) :
    t = [none] ∨ t = f.map some := by
  have hnil : ∀ t, mark t f = [] → t = [] := by
    intro t ht
    cases t with
    | nil => rfl
    | cons c t =>
      rcases mark_cons hf c t with ⟨t', -, hmark⟩ | hmark
      · rw [hmark] at ht
        cases ht
      · rw [hmark] at ht
        cases ht
  cases t with
  | nil => cases h
  | cons c t =>
    rcases mark_cons hf c t with ⟨t', ht', hmark⟩ | hmark
    · rw [hmark] at h
      rw [ht', hnil t' (List.cons.inj h).2]
      exact Or.inr (append_nil _)
    · rw [hmark] at h
      obtain ⟨rfl, hrest⟩ := List.cons.inj h
      rw [hnil t hrest]
      exact Or.inl rfl

theorem eq_of_markAll_eq_single (hne : ∀ f ∈ fs, f ≠ [])
    (h : markAll fs t = [none]) : t = [none] ∨ ∃ f ∈ fs, t = f.map some := by
  induction fs generalizing t with
  | nil => exact Or.inl h
  | cons f fs ih =>
    have hf := hne f mem_cons_self
    rcases ih (fun g hg => hne g (mem_cons_of_mem _ hg)) h with hsingle | ⟨g, hg, heq⟩
    · rcases eq_of_mark_eq_single hf hsingle with ht | ht
      · exact Or.inl ht
      · exact Or.inr ⟨f, mem_cons_self, ht⟩
    · -- there is no mark, so nothing was replaced
      have hsame : mark t f = t := by
        refine replaceAll_eq_self_of_avoids (cons_ne_nil _ _) ?_
        show Avoids [none] (mark t f)
        rw [heq]
        exact avoids_mark g
      rw [hsame] at heq
      exact Or.inr ⟨g, mem_cons_of_mem _ hg, heq⟩

omit [DecidableEq α] in
/-- A masked text that is only the mask comes from one mark, or has none. -/
theorem eq_single_of_render (hm : m ≠ []) (hmark : none ∈ t) (h : render m t = m) : t = [none] := by
  obtain ⟨a, b, rfl⟩ := append_of_mem hmark
  rw [render_append, render_none] at h
  have hlen := congrArg List.length h
  simp only [length_append] at hlen
  have hnil : ∀ u, render m u = [] → u = [] := by
    intro u hu
    cases u with
    | nil => rfl
    | cons c u =>
      cases c with
      | none =>
        rw [render_none, append_eq_nil_iff] at hu
        exact absurd hu.1 hm
      | some c => cases hu
  rw [hnil a (length_eq_zero_iff.mp (by omega)),
    hnil b (length_eq_zero_iff.mp (by omega))]
  rfl

theorem none_mem_markAll (hne : ∀ f ∈ fs, f ≠ []) (h : none ∈ t) : none ∈ markAll fs t := by
  obtain ⟨a, b, rfl⟩ := append_of_mem h
  rw [markAll_around hne]
  exact mem_append_right _ mem_cons_self

/-- Without a mark in it nothing was replaced. -/
theorem markAll_eq_self_of_unmarked (hne : ∀ f ∈ fs, f ≠ [])
    (h : none ∉ markAll fs t) : markAll fs t = t := by
  induction fs generalizing t with
  | nil => rfl
  | cons f fs ih =>
    have hrest : ∀ g ∈ fs, g ≠ [] := fun g hg => hne g (mem_cons_of_mem _ hg)
    have hmark : none ∉ mark t f :=
      fun hmem => h (show none ∈ markAll fs (mark t f) from none_mem_markAll hrest hmem)
    have hsame : mark t f = t := by
      refine replaceAll_eq_self_of_avoids (cons_ne_nil _ _) ?_
      intro x hx
      rw [mem_singleton.mp hx]
      exact hmark
    have hstep : markAll (f :: fs) t = markAll fs t := congrArg (markAll fs) hsame
    rw [hstep] at h ⊢
    exact ih hrest h

/-- **The first of the words that occurs** is the first that is replaced. -/
theorem exists_first (hsorted : fs.Pairwise fun a b => b.length ≤ a.length) (hg : g ∈ fs)
    (hoccurs : g.map some <:+: t) :
    ∃ w post, w ∈ fs ∧ g.length ≤ w.length ∧ w.map some <:+: t ∧ (∀ p ∈ post, p ∈ fs) ∧
      markAll fs t = markAll post (mark t w) := by
  induction fs with
  | nil => cases hg
  | cons f fs ih =>
    obtain ⟨hhead, hrest⟩ := pairwise_cons.mp hsorted
    by_cases hf : f.map some <:+: t
    · refine ⟨f, fs, mem_cons_self, ?_, hf, fun p hp => mem_cons_of_mem _ hp, rfl⟩
      rcases mem_cons.mp hg with rfl | hg
      · exact Nat.le_refl _
      · exact hhead g hg
    · have hgf : g ∈ fs := by
        rcases mem_cons.mp hg with rfl | hg
        · exact absurd hoccurs hf
        · exact hg
      obtain ⟨w, post, hw, hlen, hwoccurs, hpost, hmark⟩ := ih hrest hgf
      refine ⟨w, post, mem_cons_of_mem _ hw, hlen, hwoccurs,
        fun p hp => mem_cons_of_mem _ (hpost p hp), ?_⟩
      show markAll fs (mark t f) = _
      rw [mark_eq_self hf]
      exact hmark

/-! ## The order of the words -/

theorem mark_behind (hf : f ≠ []) (h : ¬ Meets f g) (t : List (Option α)) :
    mark (g.map some ++ t) f = g.map some ++ mark t f :=
  replaceSublist_append_of_apart (map_some_ne_nil hf) (fun hmeets => h hmeets.of_map_some) _ t

/-- **Words that cannot share anything may change places.** -/
theorem mark_comm (hf : f ≠ []) (hg : g ≠ []) (h : ¬ Meets f g) (t : List (Option α)) :
    mark (mark t f) g = mark (mark t g) f := by
  have hgf : ¬ Meets g f := fun hmeets => h hmeets.symm
  have hstay : ∀ {f g : List α} {c : Option α} {t : List (Option α)}, ¬ f.map some <+: c :: t →
      ¬ g.map some <+: c :: t → ¬ g.map some <+: c :: mark t f := by
    intro f g c t hfmiss hgmiss hp
    rw [← mark_miss hfmiss] at hp
    exact hgmiss (prefix_of_prefix_replaceAll (cons_ne_nil _ _) (avoids_mark g) _ hp)
  induction hlen : t.length using Nat.strongRecOn generalizing t with
  | ind n ih =>
    cases t with
    | nil => rfl
    | cons c t =>
      by_cases hfhit : f.map some <+: c :: t
      · obtain ⟨t', ht'⟩ := hfhit
        have hshort : t'.length < n := by
          have := congrArg List.length ht'
          have := length_pos_iff.mpr (map_some_ne_nil hf)
          rw [← hlen]
          simp only [length_append, length_cons] at *
          omega
        rw [← ht', mark_hit hf, mark_none hg, ih _ hshort t' rfl, mark_behind hg hgf, mark_hit hf]
      by_cases hghit : g.map some <+: c :: t
      · obtain ⟨t', ht'⟩ := hghit
        have hshort : t'.length < n := by
          have := congrArg List.length ht'
          have := length_pos_iff.mpr (map_some_ne_nil hg)
          rw [← hlen]
          simp only [length_append, length_cons] at *
          omega
        rw [← ht', mark_hit hg, mark_none hf, ← ih _ hshort t' rfl, mark_behind hf h, mark_hit hg]
      · rw [mark_miss hfhit, mark_miss hghit, mark_miss (hstay hfhit hghit),
          mark_miss (hstay hghit hfhit), ih t.length (by rw [← hlen]; simp) t rfl]

end Decidable

section Order
variable {β γ : Type} (r : β → β → Prop) [DecidableRel r] (step : γ → β → γ)

/-- Steps that may change places, where sorting makes them change places. -/
def Swaps (a b : β) : Prop := ¬ r a b → ∀ s, step (step s a) b = step (step s b) a

variable {r step}

theorem foldl_orderedInsert {a : β} {l : List β} (h : ∀ b ∈ l, Swaps r step a b) (s : γ) :
    (l.orderedInsert r a).foldl step s = (a :: l).foldl step s := by
  induction l generalizing s with
  | nil => rfl
  | cons b l ih =>
    by_cases hab : r a b
    · rw [orderedInsert, if_pos hab]
    · rw [orderedInsert, if_neg hab, foldl_cons, ih fun c hc => h c (mem_cons_of_mem _ hc)]
      simp only [foldl_cons]
      rw [h b mem_cons_self hab]

/-- **Sorted steps do what the steps in their order do.** -/
theorem foldl_insertionSort {l : List β} (h : l.Pairwise (Swaps r step)) (s : γ) :
    (l.insertionSort r).foldl step s = l.foldl step s := by
  induction l generalizing s with
  | nil => rfl
  | cons a l ih =>
    obtain ⟨hhead, hrest⟩ := pairwise_cons.mp h
    rw [insertionSort_cons, foldl_orderedInsert, foldl_cons, foldl_cons, ih hrest]
    intro b hb
    exact hhead b ((mem_insertionSort r).mp hb)

end Order

end Marking
