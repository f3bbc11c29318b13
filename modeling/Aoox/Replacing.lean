import Mathlib.Data.List.Infix

/-! # Replacing every match in a list

Global replacement scans a list from the left, writes a fixed replacement for
every match and goes on behind it; the matches it takes are the leftmost
non-overlapping ones.  A *matcher* says whether a match starts at the head of a
non-empty list and how far it reaches.  Replacing a fixed sublist, which is also
what splitting at it and joining the pieces again does, and replacing a regular
expression are both of this form.

The results are about text that shares no element with the replacement.  Such
text cannot be produced by a replacement, so a prefix, suffix or infix of the
result that avoids the replacement's elements was one of the input
(`prefix_of_prefix_replaceAll` and its companions).  For a sublist matcher two
consequences follow: the sublist does not occur in the result
(`not_infix_replaceSublist`), and replacement distributes over an append that no
occurrence straddles (`replaceSublist_append`).
-/
open List
namespace Replacing
variable {α : Type}

/-- A matcher: `some n` on a non-empty list means that a match starts at its
head and covers the head and the `n` elements behind it. -/
abbrev Matcher (α : Type) := List α → Option Nat

/-- The scan.  The first argument counts the elements that the last match still
covers. -/
def replaceGo (m : Matcher α) (r : List α) : Nat → List α → List α
  | _, [] => []
  | k + 1, _ :: cs => replaceGo m r k cs
  | 0, c :: cs =>
    match m (c :: cs) with
    | some n => r ++ replaceGo m r n cs
    | none => c :: replaceGo m r 0 cs

attribute [local simp] replaceGo

/-- Every match of `m`, leftmost first and non-overlapping, replaced by `r`. -/
def replaceAll (m : Matcher α) (r t : List α) : List α := replaceGo m r 0 t

variable (m : Matcher α) (r : List α)

theorem replaceGo_eq_drop (k : Nat) (t : List α) :
    replaceGo m r k t = replaceAll m r (t.drop k) := by
  induction t generalizing k with
  | nil => cases k <;> simp [replaceAll, replaceGo]
  | cons c cs ih =>
    cases k with
    | zero => rfl
    | succ k => simpa [replaceGo] using ih k

@[simp] theorem replaceAll_nil : replaceAll m r [] = [] := rfl

variable {c : α} {cs : List α}

theorem replaceAll_cons_some {n : Nat} (h : m (c :: cs) = some n) :
    replaceAll m r (c :: cs) = r ++ replaceAll m r (cs.drop n) := by
  rw [← replaceGo_eq_drop]
  simp [replaceAll, replaceGo, h]

theorem replaceAll_cons_none (h : m (c :: cs) = none) :
    replaceAll m r (c :: cs) = c :: replaceAll m r cs := by
  simp [replaceAll, replaceGo, h]

variable {motive : List α → Prop}

/-- The scan's own induction: the empty list, a match at the head, no match at
the head. -/
theorem scan_induction (nil : motive [])
    (hit : ∀ c cs n, m (c :: cs) = some n → motive (cs.drop n) → motive (c :: cs))
    (miss : ∀ c cs, m (c :: cs) = none → motive cs → motive (c :: cs)) : ∀ t, motive t := by
  intro t
  induction hlen : t.length using Nat.strong_induction_on generalizing t with
  | _ n ih =>
    cases t with
    | nil => exact nil
    | cons c cs =>
      have hcs : cs.length < n := by simp at hlen; omega
      cases hm : m (c :: cs) with
      | none => exact miss c cs hm (ih _ hcs cs rfl)
      | some k =>
        refine hit c cs k hm (ih (cs.drop k).length ?_ _ rfl)
        rw [length_drop]
        omega

variable {t : List α}

/-- Nothing is replaced where nothing matches. -/
theorem replaceAll_eq_self (h : ∀ c cs, c :: cs <:+ t → m (c :: cs) = none) :
    replaceAll m r t = t := by
  induction t with
  | nil => rfl
  | cons c cs ih =>
    rw [replaceAll_cons_none m r (h c cs (suffix_refl _)),
      ih (fun d ds hd => h d ds (hd.trans (suffix_cons c cs)))]

/-! ## One part in front of another -/

variable {u v : List α}

/-- Nothing is replaced in a part in which no match starts. -/
theorem replaceAll_append_of_none {m : Matcher α} {r : List α}
    (h : ∀ x, x ≠ [] → x <:+ u → m (x ++ v) = none) :
    replaceAll m r (u ++ v) = u ++ replaceAll m r v := by
  induction u with
  | nil => rfl
  | cons c cs ih =>
    have hc : m (c :: (cs ++ v)) = none := h (c :: cs) (by simp) (suffix_refl _)
    rw [cons_append, replaceAll_cons_none m r hc,
      ih fun x hx hs => h x hx (hs.trans (suffix_cons c cs)), cons_append]

/-- What becomes of a part in which all matches that start there end stands in front of
what becomes of the rest. -/
theorem replaceAll_append_of_inside {m : Matcher α} {r : List α}
    (h : ∀ x n, x ≠ [] → x <:+ u → m (x ++ v) = some n → n < x.length) :
    ∃ w, replaceAll m r (u ++ v) = w ++ replaceAll m r v ∧ ∀ c ∈ w, c ∈ u ∨ c ∈ r := by
  induction hlen : u.length using Nat.strong_induction_on generalizing u with
  | _ k ih =>
    cases u with
    | nil => exact ⟨[], rfl, by simp⟩
    | cons c cs =>
      rw [length_cons] at hlen
      have hinside : ∀ d, d <:+ cs → ∀ x n, x ≠ [] → x <:+ d → m (x ++ v) = some n → n < x.length :=
        fun d hd x n hx hs => h x n hx (hs.trans (hd.trans (suffix_cons c cs)))
      cases hm : m (c :: (cs ++ v)) with
      | none =>
        obtain ⟨w, hw, hmem⟩ := ih cs.length (by omega) (hinside cs (suffix_refl _)) rfl
        refine ⟨c :: w, ?_, fun x hx => ?_⟩
        · rw [cons_append, replaceAll_cons_none m r hm, hw, cons_append]
        · rcases mem_cons.mp hx with rfl | hx
          · exact .inl mem_cons_self
          · exact (hmem x hx).imp_left (mem_cons_of_mem c)
      | some n =>
        have hn := h (c :: cs) n (by simp) (suffix_refl _) hm
        rw [length_cons] at hn
        have hdrop : (cs ++ v).drop n = cs.drop n ++ v := drop_append_of_le_length (by omega)
        obtain ⟨w, hw, hmem⟩ := ih (cs.drop n).length (by rw [length_drop]; omega)
          (hinside (cs.drop n) (drop_suffix n cs)) rfl
        refine ⟨r ++ w, ?_, fun x hx => ?_⟩
        · rw [cons_append, replaceAll_cons_some m r hm, hdrop, hw, append_assoc]
        · rcases mem_append.mp hx with hx | hx
          · exact .inr hx
          · exact (hmem x hx).imp_left fun hd => mem_cons_of_mem c (mem_of_mem_drop hd)

/-! ## Text that avoids the replacement -/

/-- `u` shares no element with `r`. -/
def Avoids (r u : List α) : Prop := ∀ x ∈ r, x ∉ u

theorem Avoids.of_infix {r : List α} (h : Avoids r v) (huv : u <:+: v) : Avoids r u :=
  fun x hx hu => h x hx (huv.subset hu)

variable {m r}

variable {a b : List α}

theorem prefix_append_split (h : u <+: a ++ b) : u <+: a ∨ ∃ v, u = a ++ v ∧ v <+: b := by
  induction a generalizing u with
  | nil => exact Or.inr ⟨u, rfl, h⟩
  | cons x a ih =>
    cases u with
    | nil => exact Or.inl nil_prefix
    | cons y u =>
      obtain ⟨rfl, h'⟩ := cons_prefix_cons.mp h
      rcases ih h' with ha | ⟨v, rfl, hv⟩
      · exact Or.inl (cons_prefix_cons.mpr ⟨rfl, ha⟩)
      · exact Or.inr ⟨v, rfl, hv⟩

theorem suffix_append_split (h : u <:+ a ++ b) : u <:+ b ∨ ∃ v, u = v ++ b ∧ v <:+ a := by
  rcases suffix_or_suffix_of_suffix h (suffix_append a b) with hb | hb
  · exact Or.inl hb
  · obtain ⟨v, rfl⟩ := hb
    obtain ⟨w, hw⟩ := h
    exact Or.inr ⟨v, rfl, w, append_cancel_right (by simpa using hw)⟩

/-- An infix of `a ++ b` lies in `a`, lies in `b`, or crosses from the one into
the other. -/
theorem infix_append_split (h : u <:+: a ++ b) :
    u <:+: a ∨ u <:+: b ∨ ∃ v w, v ≠ [] ∧ w ≠ [] ∧ u = v ++ w ∧ v <:+ a ∧ w <+: b := by
  obtain ⟨p, s, hps⟩ := h
  have hpre : p ++ u <+: a ++ b := ⟨s, hps⟩
  rcases prefix_append_split hpre with ha | ⟨w, hw, hwb⟩
  · exact Or.inl ((suffix_append p u).isInfix.trans ha.isInfix)
  · have hsuf : u <:+ a ++ w := ⟨p, hw⟩
    rcases suffix_append_split hsuf with hu | ⟨v, hv, hva⟩
    · exact Or.inr (Or.inl (hu.isInfix.trans hwb.isInfix))
    · by_cases hv0 : v = []
      · subst hv0
        exact Or.inr (Or.inl (by simpa [hv] using hwb.isInfix))
      · by_cases hw0 : w = []
        · subst hw0
          exact Or.inl (by simpa [hv] using hva.isInfix)
        · exact Or.inr (Or.inr ⟨v, w, hv0, hw0, hv, hva, hwb⟩)

/-- Where the result begins with text that avoids the replacement, the scan has
replaced nothing up to the end of that text. -/
theorem eq_append_of_replaceAll_eq (hr : r ≠ []) {q : List α} (hu : Avoids r u)
    (h : replaceAll m r t = u ++ q) : ∃ t', t = u ++ t' ∧ q = replaceAll m r t' := by
  induction u generalizing t with
  | nil => exact ⟨t, rfl, h.symm⟩
  | cons x u ih =>
    cases t with
    | nil => simp at h
    | cons c cs =>
      cases hm : m (c :: cs) with
      | none =>
        rw [replaceAll_cons_none m r hm] at h
        obtain ⟨rfl, h'⟩ := List.cons.inj h
        obtain ⟨t', rfl, hq⟩ := ih (hu.of_infix (suffix_cons _ _).isInfix) h'
        exact ⟨t', rfl, hq⟩
      | some n =>
        rw [replaceAll_cons_some m r hm] at h
        obtain ⟨y, r', rfl⟩ := exists_cons_of_ne_nil hr
        obtain ⟨rfl, -⟩ := List.cons.inj h
        exact absurd mem_cons_self (hu y mem_cons_self)

theorem prefix_of_prefix_replaceAll (hr : r ≠ []) (hu : Avoids r u) (t : List α)
    (h : u <+: replaceAll m r t) : u <+: t := by
  obtain ⟨q, hq⟩ := h
  obtain ⟨t', rfl, -⟩ := eq_append_of_replaceAll_eq hr hu hq.symm
  exact prefix_append u t'

/-- A result that avoids the replacement is the input. -/
theorem replaceAll_eq_self_of_avoids (hr : r ≠ [])
    (h : Avoids r (replaceAll m r t)) : replaceAll m r t = t := by
  induction t using scan_induction m with
  | nil => rfl
  | hit c cs n hm ih =>
    rw [replaceAll_cons_some m r hm] at h
    obtain ⟨x, r', rfl⟩ := exists_cons_of_ne_nil hr
    exact absurd (mem_append_left _ mem_cons_self) (h x mem_cons_self)
  | miss c cs hm ih =>
    rw [replaceAll_cons_none m r hm] at h ⊢
    rw [ih (h.of_infix (suffix_cons _ _).isInfix)]

theorem suffix_of_suffix_replaceAll (hr : r ≠ []) (hu : Avoids r u) :
    ∀ t, u <:+ replaceAll m r t → u <:+ t := by
  intro t
  induction t using scan_induction m with
  | nil => exact id
  | hit c cs n hm ih =>
    intro h
    rw [replaceAll_cons_some m r hm] at h
    rcases suffix_append_split h with h | ⟨v, rfl, hv⟩
    · exact (ih h).trans ((drop_suffix n cs).trans (suffix_cons c cs))
    · cases eq_nil_or_concat v with
      | inl hv0 =>
        subst hv0
        exact (ih (suffix_refl _)).trans ((drop_suffix n cs).trans (suffix_cons c cs))
      | inr hv0 =>
        obtain ⟨w, x, rfl⟩ := hv0
        exact absurd (by simp) (hu x (hv.subset (by simp)))
  | miss c cs hm ih =>
    intro h
    rw [replaceAll_cons_none m r hm] at h
    rcases suffix_cons_iff.mp h with rfl | h
    · rw [replaceAll_eq_self_of_avoids hr (hu.of_infix (suffix_cons _ _).isInfix)]
    · exact (ih h).trans (suffix_cons c cs)

theorem infix_of_infix_replaceAll (hr : r ≠ []) (hu : Avoids r u) :
    ∀ t, u <:+: replaceAll m r t → u <:+: t := by
  intro t
  induction t using scan_induction m with
  | nil => exact id
  | hit c cs n hm ih =>
    intro h
    have htail : cs.drop n <:+: c :: cs := ((drop_suffix n cs).trans (suffix_cons c cs)).isInfix
    rw [replaceAll_cons_some m r hm] at h
    rcases infix_append_split h with h | h | ⟨v, w, hv, -, rfl, hvr, -⟩
    · cases u with
      | nil => exact nil_infix
      | cons x u => exact absurd mem_cons_self (hu x (h.subset mem_cons_self))
    · exact (ih h).trans htail
    · obtain ⟨x, v', rfl⟩ := exists_cons_of_ne_nil hv
      exact absurd (by simp) (hu x (hvr.subset mem_cons_self))
  | miss c cs hm ih =>
    intro h
    have hwhole := replaceAll_cons_none m r hm
    rw [hwhole] at h
    rcases infix_cons_iff.mp h with h | h
    · exact (prefix_of_prefix_replaceAll hr hu (c :: cs) (by rw [hwhole]; exact h)).isInfix
    · exact (ih h).trans (suffix_cons c cs).isInfix

/-- **What always starts a match is gone.** -/
theorem not_infix_replaceAll (hu0 : u ≠ []) (hr : r ≠ []) (hu : Avoids r u)
    (hm : ∀ t, u <+: t → (m t).isSome) (t : List α) : ¬ u <:+: replaceAll m r t := by
  obtain ⟨x, u', hx⟩ := exists_cons_of_ne_nil hu0
  induction t using scan_induction m with
  | nil => simp [hu0]
  | hit c cs n hc ih =>
    rw [replaceAll_cons_some m r hc]
    intro hi
    rcases infix_append_split hi with hi | hi | ⟨v, w, hv, -, hvw, hvr, -⟩
    · exact hu x (hi.subset (by simp [hx])) (by simp [hx])
    · exact ih hi
    · obtain ⟨y, v', rfl⟩ := exists_cons_of_ne_nil hv
      exact hu y (hvr.subset mem_cons_self) (by simp [hvw])
  | miss c cs hc ih =>
    have hwhole := replaceAll_cons_none m r hc
    intro hi
    rw [hwhole] at hi
    rcases infix_cons_iff.mp hi with hi | hi
    · have hp := hm _ (prefix_of_prefix_replaceAll hr hu (c :: cs) (by rw [hwhole]; exact hi))
      simp [hc] at hp
    · exact ih hi

/-! ## One text behind another -/

/-- `v` occurs in the text behind an occurrence of `u`. -/
def Behind (u v t : List α) : Prop := ∃ p q, t = p ++ u ++ q ∧ v <:+: q

theorem Behind.mono {s : List α} (h : Behind u v s) (hst : s <:+: t) : Behind u v t := by
  obtain ⟨p, q, rfl, hv⟩ := h
  obtain ⟨a, b, rfl⟩ := hst
  exact ⟨a ++ p, q ++ b, by simp, hv.trans (prefix_append q b).isInfix⟩

/-- An occurrence of `u` cannot begin inside the replacement. -/
theorem exists_eq_append_of_avoids {p q R : List α} (hu0 : u ≠ []) (hu : Avoids r u)
    (h : r ++ R = p ++ u ++ q) : ∃ w, R = w ++ u ++ q := by
  rw [append_assoc] at h
  rcases append_eq_append_iff.mp h with ⟨w, -, hw⟩ | ⟨w, hw, hq⟩
  · exact ⟨w, by rw [hw, append_assoc]⟩
  · cases w with
    | nil => exact ⟨[], by simpa using hq.symm⟩
    | cons x w =>
      obtain ⟨y, u', rfl⟩ := exists_cons_of_ne_nil hu0
      obtain ⟨rfl, -⟩ := List.cons.inj hq
      exact absurd mem_cons_self (hu y (by simp [hw]))

/-- Where the result has `v` behind `u`, the input had it, if neither shares an
element with the replacement. -/
theorem Behind.of_replaceAll (hu0 : u ≠ []) (hr : r ≠ []) (hu : Avoids r u) (hv : Avoids r v)
    (h : Behind u v (replaceAll m r t)) : Behind u v t := by
  obtain ⟨p, q, h, hvq⟩ := h
  induction t using scan_induction m generalizing p with
  | nil => simp [hu0] at h
  | hit c cs n hc ih =>
    have htail : cs.drop n <:+: c :: cs := ((drop_suffix n cs).trans (suffix_cons c cs)).isInfix
    rw [replaceAll_cons_some m r hc] at h
    obtain ⟨w, hw⟩ := exists_eq_append_of_avoids hu0 hu h
    exact (ih w hw).mono htail
  | miss c cs hc ih =>
    cases p with
    | nil =>
      obtain ⟨t', ht, rfl⟩ := eq_append_of_replaceAll_eq hr hu (by simpa using h)
      exact ⟨[], t', by simpa using ht, infix_of_infix_replaceAll hr hv t' hvq⟩
    | cons x p =>
      rw [replaceAll_cons_none m r hc] at h
      obtain ⟨-, h'⟩ := List.cons.inj h
      exact (ih p h').mono (suffix_cons c cs).isInfix

/-- **A match that runs from `u` to the first `v` behind it leaves no `v` behind a
`u`.** -/
theorem not_behind_replaceAll (hu0 : u ≠ []) (hr : r ≠ []) (hu : Avoids r u) (hv : Avoids r v)
    (hm : ∀ t, v <:+: t → (m (u ++ t)).isSome) (t : List α) : ¬ Behind u v (replaceAll m r t) := by
  rintro ⟨p, q, h, hvq⟩
  induction t using scan_induction m generalizing p with
  | nil => simp [hu0] at h
  | hit c cs n hc ih =>
    rw [replaceAll_cons_some m r hc] at h
    obtain ⟨w, hw⟩ := exists_eq_append_of_avoids hu0 hu h
    exact ih w hw
  | miss c cs hc ih =>
    cases p with
    | nil =>
      obtain ⟨t', ht, rfl⟩ := eq_append_of_replaceAll_eq hr hu (by simpa using h)
      have hsome := hm t' (infix_of_infix_replaceAll hr hv t' hvq)
      rw [← ht, hc] at hsome
      cases hsome
    | cons x p =>
      rw [replaceAll_cons_none m r hc] at h
      exact ih p (List.cons.inj h).2

/-! ## Replacing a sublist -/

section Sublist
variable [DecidableEq α]

def sublist (f : List α) : Matcher α :=
  fun t => if f <+: t then some (f.length - 1) else none

/-- Every leftmost non-overlapping occurrence of `f` replaced by `r`. -/
def replaceSublist (f r t : List α) : List α := replaceAll (sublist f) r t

/-- `f` straddles the cut between `a` and `b`: one part of it ends `a` and the
other begins `b`. -/
def Straddles (f a b : List α) : Prop :=
  ∃ u v, u ≠ [] ∧ v ≠ [] ∧ f = u ++ v ∧ u <:+ a ∧ v <+: b

@[simp] theorem replaceSublist_nil (f r : List α) : replaceSublist f r [] = [] := rfl

variable {f : List α}

theorem replaceSublist_hit (hf : f ≠ []) (r t : List α) :
    replaceSublist f r (f ++ t) = r ++ replaceSublist f r t := by
  obtain ⟨x, f', rfl⟩ := exists_cons_of_ne_nil hf
  have h : sublist (x :: f') (x :: (f' ++ t)) = some f'.length := by
    simp [sublist, cons_prefix_cons]
  simp only [replaceSublist, cons_append, replaceAll_cons_some _ r h, drop_left]

theorem replaceSublist_miss (r : List α)
    (h : ¬ f <+: c :: cs) : replaceSublist f r (c :: cs) = c :: replaceSublist f r cs :=
  replaceAll_cons_none _ r (by simp [sublist, h])

/-- The scan for a sublist: at its head the text either begins with `f` or does
not. -/
theorem sublist_induction (hf : f ≠ []) (nil : motive []) (hit : ∀ t, motive t → motive (f ++ t))
    (miss : ∀ c cs, ¬ f <+: c :: cs → motive cs → motive (c :: cs)) : ∀ t, motive t := by
  intro t
  induction hlen : t.length using Nat.strong_induction_on generalizing t with
  | _ n ih =>
    cases t with
    | nil => exact nil
    | cons c cs =>
      by_cases h : f <+: c :: cs
      · obtain ⟨t, ht⟩ := h
        have hf' : 0 < f.length := length_pos_iff.mpr hf
        rw [← ht] at hlen ⊢
        rw [length_append] at hlen
        exact hit t (ih t.length (by omega) t rfl)
      · exact miss c cs h (ih cs.length (by simp at hlen; omega) cs rfl)

theorem replaceSublist_eq_self (r : List α) (h : ¬ f <:+: t) : replaceSublist f r t = t := by
  refine replaceAll_eq_self _ r (fun c cs hs => ?_)
  have hp : ¬ f <+: c :: cs := fun hp => h (hp.isInfix.trans hs.isInfix)
  simp [sublist, hp]

variable {f r : List α}

/-- **The replaced sublist is gone.** -/
theorem not_infix_replaceSublist (hf : f ≠ []) (hr : r ≠ []) (h : Avoids r f) (t : List α) :
    ¬ f <:+: replaceSublist f r t :=
  not_infix_replaceAll hf hr h (fun t ht => by simp [sublist, ht]) t

/-- **Replacement distributes over a cut that no occurrence straddles.** -/
theorem replaceSublist_append (hf : f ≠ []) (r : List α) (h : ¬ Straddles f a b) :
    replaceSublist f r (a ++ b) = replaceSublist f r a ++ replaceSublist f r b := by
  induction a using sublist_induction hf with
  | nil => rfl
  | hit a ih =>
    have h' : ¬ Straddles f a b := by
      rintro ⟨u, v, hu, hv, huv, hua, hvb⟩
      exact h ⟨u, v, hu, hv, huv, hua.trans (suffix_append f a), hvb⟩
    rw [append_assoc, replaceSublist_hit hf, ih h', replaceSublist_hit hf, append_assoc]
  | miss c a hm ih =>
    have h' : ¬ Straddles f a b := by
      rintro ⟨u, v, hu, hv, huv, hua, hvb⟩
      exact h ⟨u, v, hu, hv, huv, hua.trans (suffix_cons c a), hvb⟩
    -- A match at the head of `a ++ b` would lie inside `a` or straddle the cut.
    have hm' : ¬ f <+: c :: (a ++ b) := by
      intro hp
      rcases prefix_append_split (a := c :: a) (b := b) hp with hp | ⟨v, hv, hvb⟩
      · exact hm hp
      · by_cases hv0 : v = []
        · exact hm (by simp [hv, hv0])
        · exact h ⟨c :: a, v, by simp, hv0, hv, suffix_refl _, hvb⟩
    rw [cons_append, replaceSublist_miss r hm', ih h', replaceSublist_miss r hm, cons_append]

omit [DecidableEq α] in
/-- A cut that a sublist avoiding `r` straddles after a replacement was straddled
before it. -/
theorem Straddles.of_replaceAll {m : Matcher α} {g : List α} (hr : r ≠ []) (hg : Avoids r g)
    (h : Straddles g (replaceAll m r a) (replaceAll m r b)) : Straddles g a b := by
  obtain ⟨u, v, hu, hv, rfl, hua, hvb⟩ := h
  have hu' : Avoids r u := hg.of_infix (prefix_append u v).isInfix
  have hv' : Avoids r v := hg.of_infix (suffix_append u v).isInfix
  exact ⟨u, v, hu, hv, rfl, suffix_of_suffix_replaceAll hr hu' a hua,
    prefix_of_prefix_replaceAll hr hv' b hvb⟩

end Sublist
end Replacing
