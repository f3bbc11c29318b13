import Aoox.Replacing

/-! # Splicing text into the matches of a pattern

A template is a text in which every match of a pattern is replaced by some other
text.  `cut` is the scan: what stands before each leftmost, non-overlapping match
and what stands behind the last one.  The expanded text is the concatenation of
those gaps and the inserted texts, so the question is where a match can stand in
a concatenation (`occurs_flatten_iff`): inside one piece, or across a border.
The gaps themselves never hold one (`not_occurs_gap`, `not_occurs_rest`).

The only assumption about the pattern is that a match does not depend on what
follows it, which holds for a regular expression that ends in a literal and
looks nowhere ahead.
-/
open List Option
namespace Splicing
variable {α μ : Type}

/-- A pattern: the match at the head of a text and the number of elements it
covers. -/
structure Pattern (α μ : Type) where
  find : List α → Option μ
  size : μ → Nat
  size_pos : ∀ {t x}, find t = some x → 0 < size x
  size_le : ∀ {t x}, find t = some x → size x ≤ t.length
  ends : ∀ {t x} (u : List α), find t = some x → find (t.take (size x) ++ u) = some x

variable (P : Pattern α μ)

/-- Puts an element in front of the first gap. -/
def consGap (c : α) : List (List α × μ) × List α → List (List α × μ) × List α
  | ([], rest) => ([], c :: rest)
  | ((gap, x) :: ms, rest) => ((c :: gap, x) :: ms, rest)

/-- The scan; the number counts the elements the last match still covers. -/
def cutGo : Nat → List α → List (List α × μ) × List α
  | _, [] => ([], [])
  | k + 1, _ :: cs => cutGo k cs
  | 0, c :: cs =>
    match P.find (c :: cs) with
    | some x => (([], x) :: (cutGo (P.size x - 1) cs).1, (cutGo (P.size x - 1) cs).2)
    | none => consGap c (cutGo 0 cs)

attribute [local simp] cutGo

/-- The matches, each with the text since the one before, and the text behind
the last. -/
def cut (t : List α) : List (List α × μ) × List α := cutGo P 0 t

/-- The gaps of a text and, between them, what is inserted for each match. -/
def pieces (insert : μ → List α) (t : List α) : List (List α) :=
  ((cut P t).1.flatMap fun g => [g.1, insert g.2]) ++ [(cut P t).2]

/-- The text with every match replaced. -/
def expand (insert : μ → List α) (t : List α) : List α := (pieces P insert t).flatten

/-- A match starts somewhere in the text. -/
def Occurs (t : List α) : Prop := ∃ s, s <:+ t ∧ (P.find s).isSome

/-- A match starts in one of the pieces and ends in a later one. -/
def Crosses (pieces : List (List α)) : Prop :=
  ∃ before p after s x, pieces = before ++ p :: after ∧ s <:+ p ∧ s ≠ [] ∧
    P.find (s ++ after.flatten) = some x ∧ s.length < P.size x

variable {P}

variable {t : List α} {x : μ}

theorem find_append (u : List α) (h : P.find t = some x) : P.find (t ++ u) = some x := by
  have hends := P.ends (t.drop (P.size x) ++ u) h
  rwa [← append_assoc, take_append_drop] at hends

variable {s : List α}

/-- A match is found in any text that holds all of it. -/
theorem find_of_append {u : List α} (h : P.find (s ++ u) = some x)
    (hlen : P.size x ≤ s.length) : P.find s = some x := by
  have hends := P.ends (s.drop (P.size x)) h
  rwa [take_append_of_le_length hlen, take_append_drop] at hends

theorem find_nil : P.find [] = none := by
  cases h : P.find [] with
  | none => rfl
  | some x => exact absurd (P.size_le h) (Nat.not_le.mpr (P.size_pos h))

theorem Occurs.of_suffix (hs : s <:+ t) (h : Occurs P s) : Occurs P t := let ⟨r, hr, hfind⟩ := h
  ⟨r, hr.trans hs, hfind⟩

theorem Occurs.append (u : List α) (h : Occurs P s) : Occurs P (s ++ u) := by
  obtain ⟨r, ⟨b, rfl⟩, hfind⟩ := h
  obtain ⟨x, hx⟩ := isSome_iff_exists.mp hfind
  refine ⟨r ++ u, ⟨b, by simp⟩, ?_⟩
  rw [find_append u hx]
  rfl

theorem not_occurs_nil : ¬ Occurs P [] := by
  rintro ⟨s, hs, hfind⟩
  rw [suffix_nil.mp hs, find_nil] at hfind
  cases hfind

variable {cs : List α} {c : α}

theorem occurs_cons_iff : Occurs P (c :: cs) ↔ (P.find (c :: cs)).isSome ∨ Occurs P cs := by
  constructor
  · rintro ⟨s, hs, hfind⟩
    rcases suffix_cons_iff.mp hs with rfl | hs
    · exact Or.inl hfind
    · exact Or.inr ⟨s, hs, hfind⟩
  · rintro (hfind | h)
    · exact ⟨c :: cs, suffix_refl _, hfind⟩
    · exact h.of_suffix (suffix_cons c cs)

/-! ## The scan -/

theorem cutGo_eq_drop (k : Nat) (t : List α) : cutGo P k t = cut P (t.drop k) := by
  induction t generalizing k with
  | nil => cases k <;> simp [cut, cutGo]
  | cons c cs ih =>
    cases k with
    | zero => rfl
    | succ k => simpa [cutGo] using ih k

theorem cut_cons_some (h : P.find (c :: cs) = some x) :
    cut P (c :: cs) = (([], x) :: (cut P ((c :: cs).drop (P.size x))).1,
      (cut P ((c :: cs).drop (P.size x))).2) := by
  obtain ⟨n, hn⟩ : ∃ n, P.size x = n + 1 := ⟨P.size x - 1, by have := P.size_pos h; omega⟩
  rw [hn, drop_succ_cons, ← cutGo_eq_drop, cut, cutGo, h]
  simp [hn]

theorem cut_cons_none (h : P.find (c :: cs) = none) : cut P (c :: cs) = consGap c (cut P cs) := by
  simp [cut, cutGo, h]

/-- The scan's own induction. -/
theorem cut_induction {motive : List α → Prop} (nil : motive [])
    (hit : ∀ c cs x, P.find (c :: cs) = some x → motive ((c :: cs).drop (P.size x)) →
      motive (c :: cs))
    (miss : ∀ c cs, P.find (c :: cs) = none → motive cs → motive (c :: cs)) :
    ∀ t, motive t := by
  intro t
  induction hlen : t.length using Nat.strong_induction_on generalizing t with
  | _ n ih =>
    cases t with
    | nil => exact nil
    | cons c cs =>
      cases hm : P.find (c :: cs) with
      | none => exact miss c cs hm (ih cs.length (by simp at hlen; omega) cs rfl)
      | some x =>
        have hpos := P.size_pos hm
        refine hit c cs x hm (ih ((c :: cs).drop (P.size x)).length ?_ _ rfl)
        simp only [length_drop, length_cons] at hlen ⊢
        omega

/-- Where no match starts at all, nothing is cut. -/
theorem cut_fst_eq_nil_iff : (cut P t).1 = [] ↔ ¬ Occurs P t := by
  induction t with
  | nil => exact ⟨fun _ => not_occurs_nil, fun _ => rfl⟩
  | cons c cs ih =>
    rw [occurs_cons_iff, not_or, ← ih]
    cases h : P.find (c :: cs) with
    | some x => simp [cut_cons_some h]
    | none =>
      rw [cut_cons_none h]
      rcases cut P cs with ⟨_ | ⟨g, ms⟩, rest⟩ <;> simp [consGap]

theorem cut_snd_of_fst_eq_nil (h : (cut P t).1 = []) : (cut P t).2 = t := by
  induction t with
  | nil => rfl
  | cons c cs ih =>
    cases hm : P.find (c :: cs) with
    | some x =>
      rw [cut_cons_some hm] at h
      cases h
    | none =>
      rw [cut_cons_none hm] at h ⊢
      rcases hcut : cut P cs with ⟨_ | ⟨g, ms⟩, rest⟩
      · rw [hcut] at ih
        exact congrArg (c :: ·) (ih rfl)
      · rw [hcut] at h
        cases h

/-- Every match of the scan was found at some place of the text. -/
theorem find_of_mem_cut : ∀ g ∈ (cut P t).1, ∃ s, P.find s = some g.2 := by
  induction t using cut_induction (P := P) with
  | nil => simp [cut, cutGo]
  | hit c cs x h ih =>
    rw [cut_cons_some h]
    rintro g hg
    rcases mem_cons.mp hg with rfl | hg
    · exact ⟨c :: cs, h⟩
    · exact ih g hg
  | miss c cs h ih =>
    rw [cut_cons_none h]
    rcases hcut : cut P cs with ⟨_ | ⟨⟨gap, x⟩, ms⟩, rest⟩
    · simp [consGap]
    · rw [hcut] at ih
      rintro g hg
      rcases mem_cons.mp hg with rfl | hg
      · exact ih (gap, x) mem_cons_self
      · exact ih g (mem_cons_of_mem _ hg)

/-- The text up to the first match, or the rest, is a prefix of the text. -/
theorem firstGap_isPrefix {gap rest : List α} {ms : List (List α × μ)}
    (h : cut P t = ((gap, x) :: ms, rest)) : gap <+: t := by
  induction t generalizing gap with
  | nil => simp [cut, cutGo] at h
  | cons c cs ih =>
    cases hm : P.find (c :: cs) with
    | some y =>
      rw [cut_cons_some hm] at h
      simp only [Prod.mk.injEq, List.cons.injEq] at h
      rw [← h.1.1.1]
      exact nil_prefix
    | none =>
      rw [cut_cons_none hm] at h
      rcases hcut : cut P cs with ⟨_ | ⟨⟨gap', x'⟩, ms'⟩, rest'⟩
      · simp [hcut, consGap] at h
      · simp only [hcut, consGap, Prod.mk.injEq, List.cons.injEq] at h
        obtain ⟨⟨⟨rfl, rfl⟩, rfl⟩, rfl⟩ := h
        exact cons_prefix_cons.mpr ⟨rfl, ih hcut⟩

/-- **No match inside a gap**: it would also be one of the whole text, and the
scan would have stopped there. -/
theorem not_occurs_gap : ∀ g ∈ (cut P t).1, ¬ Occurs P g.1 := by
  induction t using cut_induction (P := P) with
  | nil => simp [cut, cutGo]
  | hit c cs x h ih =>
    rw [cut_cons_some h]
    rintro g hg
    rcases mem_cons.mp hg with rfl | hg
    · exact not_occurs_nil
    · exact ih g hg
  | miss c cs h ih =>
    rw [cut_cons_none h]
    rcases hcut : cut P cs with ⟨_ | ⟨⟨gap, x⟩, ms⟩, rest⟩
    · simp [consGap]
    · have hpre := firstGap_isPrefix hcut
      rw [hcut] at ih
      rintro g hg
      rcases mem_cons.mp hg with rfl | hg
      · rw [occurs_cons_iff, not_or]
        refine ⟨?_, ih (gap, x) mem_cons_self⟩
        obtain ⟨u, hu⟩ := hpre
        intro hsome
        obtain ⟨y, hy⟩ := isSome_iff_exists.mp hsome
        have := find_append u hy
        rw [cons_append, hu, h] at this
        cases this
      · exact ih g (mem_cons_of_mem _ hg)

/-- No match behind the last one. -/
theorem not_occurs_rest (t : List α) : ¬ Occurs P (cut P t).2 := by
  induction t using cut_induction (P := P) with
  | nil => exact not_occurs_nil
  | hit c cs x h ih =>
    rw [cut_cons_some h]
    exact ih
  | miss c cs h ih =>
    by_cases hnil : (cut P (c :: cs)).1 = []
    · rw [cut_snd_of_fst_eq_nil hnil]
      exact cut_fst_eq_nil_iff.mp hnil
    · rw [cut_cons_none h] at hnil ⊢
      rcases hcut : cut P cs with ⟨_ | ⟨g, ms⟩, rest⟩
      · simp [hcut, consGap] at hnil
      · rw [hcut] at ih
        exact ih

/-! ## Putting pieces together -/

theorem Crosses.cons {p : List α} {ps : List (List α)} (h : Crosses P ps) : Crosses P (p :: ps) := by
  obtain ⟨before, q, after, s, x, rfl, hs⟩ := h
  exact ⟨p :: before, q, after, s, x, rfl, hs⟩

/-- **Where a match can stand in a concatenation**: inside one of the pieces, or
across a border. -/
theorem occurs_flatten_iff {pieces : List (List α)} :
    Occurs P pieces.flatten ↔ (∃ p ∈ pieces, Occurs P p) ∨ Crosses P pieces := by
  constructor
  · induction pieces with
    | nil => exact fun h => absurd h not_occurs_nil
    | cons p ps ih =>
      rintro ⟨s, hs, hfind⟩
      have later : s <:+ ps.flatten → (∃ q ∈ p :: ps, Occurs P q) ∨ Crosses P (p :: ps) := by
        intro hs
        rcases ih ⟨s, hs, hfind⟩ with ⟨q, hq, hocc⟩ | hcross
        · exact Or.inl ⟨q, mem_cons_of_mem _ hq, hocc⟩
        · exact Or.inr hcross.cons
      rw [flatten_cons] at hs
      rcases Replacing.suffix_append_split hs with hs | ⟨r, rfl, hr⟩
      · exact later hs
      · by_cases hnil : r = []
        · subst hnil
          exact later (suffix_refl _)
        · obtain ⟨x, hx⟩ := isSome_iff_exists.mp hfind
          by_cases hlen : P.size x ≤ r.length
          · have hin : Occurs P p := ⟨r, hr, by rw [find_of_append hx hlen]; rfl⟩
            exact Or.inl ⟨p, mem_cons_self, hin⟩
          · exact Or.inr ⟨[], p, ps, r, x, rfl, hr, hnil, hx, by omega⟩
  · rintro (⟨p, hp, hocc⟩ | ⟨before, p, after, s, x, rfl, hs, -, hfind, -⟩)
    · obtain ⟨before, after, rfl⟩ := append_of_mem hp
      rw [flatten_append, flatten_cons]
      exact (hocc.append after.flatten).of_suffix (suffix_append _ _)
    · obtain ⟨b, rfl⟩ := hs
      refine ⟨s ++ after.flatten, ⟨before.flatten ++ b, by simp⟩, ?_⟩
      rw [hfind]
      rfl

/-- **Matches in an expanded text**: they come with what is inserted, or stand
across a border. -/
theorem occurs_expand_iff {insert : μ → List α} : Occurs P (expand P insert t) ↔
      (∃ g ∈ (cut P t).1, Occurs P (insert g.2)) ∨ Crosses P (pieces P insert t) := by
  rw [expand, occurs_flatten_iff]
  refine or_congr_left ⟨?_, ?_⟩
  · rintro ⟨p, hp, hocc⟩
    rcases mem_append.mp hp with hp | hp
    · obtain ⟨g, hg, hpg⟩ := mem_flatMap.mp hp
      rcases mem_cons.mp hpg with rfl | hpg
      · exact absurd hocc (not_occurs_gap g hg)
      · exact ⟨g, hg, mem_singleton.mp hpg ▸ hocc⟩
    · exact absurd (mem_singleton.mp hp ▸ hocc) (not_occurs_rest t)
  · rintro ⟨g, hg, hocc⟩
    refine ⟨insert g.2, mem_append_left _ (mem_flatMap.mpr ⟨g, hg, ?_⟩), hocc⟩
    exact mem_cons_of_mem _ mem_cons_self

/-- An element that no match holds keeps the texts on its two sides apart. -/
theorem occurs_append_cons_iff (hc : ∀ t x, P.find t = some x → c ∉ t.take (P.size x))
    {a b : List α} : Occurs P (a ++ c :: b) ↔ Occurs P a ∨ Occurs P b := by
  constructor
  · rintro ⟨s, hs, hfind⟩
    obtain ⟨x, hx⟩ := isSome_iff_exists.mp hfind
    rcases Replacing.suffix_append_split hs with hs | ⟨r, rfl, hr⟩
    · rcases suffix_cons_iff.mp hs with rfl | hs
      · obtain ⟨n, hn⟩ : ∃ n, P.size x = n + 1 := ⟨P.size x - 1, by have := P.size_pos hx; omega⟩
        exact absurd (by simp [hn]) (hc _ x hx)
      · exact Or.inr ⟨s, hs, hfind⟩
    · have hlen : P.size x ≤ r.length := by
        by_contra hlt
        apply hc _ x hx
        rw [take_append, take_of_length_le (by omega)]
        obtain ⟨n, hn⟩ : ∃ n, P.size x - r.length = n + 1 := ⟨P.size x - r.length - 1, by omega⟩
        simp [hn]
      exact Or.inl ⟨r, hr, by rw [find_of_append hx hlen]; rfl⟩
  · rintro (ha | hb)
    · exact ha.append _
    · exact hb.of_suffix ⟨a ++ [c], by simp⟩

end Splicing
