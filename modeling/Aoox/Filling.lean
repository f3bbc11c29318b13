import Mathlib.Data.List.Infix

/-! # Filling in references

A text is filled in from the left: every reference is replaced by its value, and the scan goes
on behind it.  How far a reference reaches may depend on what follows, such as that of a name
without an end of its own; what is asked of it is that it is still there whatever follows
(`Form.holds`).

A text that has references does not come out of its own filling in, as long as the values have
none: it would have to be moved along by a value, and nothing brings it back (`fill_moved`).
-/
open List
namespace Filling
variable {α μ : Type}

/-- The references: the one at the head of a text, and the number of elements it covers. -/
structure Form (α μ : Type) where
  find : List α → Option μ
  size : μ → Nat
  size_pos : ∀ {t x}, find t = some x → 0 < size x
  size_le : ∀ {t x}, find t = some x → size x ≤ t.length
  holds : ∀ {t x} (u : List α), find t = some x → (find (t.take (size x) ++ u)).isSome

variable (P : Form α μ)

/-- The scan; the number counts the elements the last reference still covers. -/
def fillGo (value : μ → List α) : Nat → List α → List α
  | _, [] => []
  | k + 1, _ :: cs => fillGo value k cs
  | 0, c :: cs =>
    match P.find (c :: cs) with
    | some x => value x ++ fillGo value (P.size x - 1) cs
    | none => c :: fillGo value 0 cs

/-- The text with the values of its references. -/
def fill (value : μ → List α) (t : List α) : List α := fillGo P value 0 t

attribute [local simp] fillGo

/-- A reference begins somewhere in the text. -/
def Occurs (t : List α) : Prop := ∃ s, s <:+ t ∧ (P.find s).isSome

variable {P}

instance (t : List α) : Decidable (Occurs P t) :=
  decidable_of_iff (t.tails.any fun s => (P.find s).isSome) <| by simp [Occurs]

theorem find_nil : P.find [] = none := by
  by_contra h
  obtain ⟨x, hx⟩ := Option.ne_none_iff_exists'.mp h
  exact absurd (P.size_le hx) (Nat.not_le.mpr (P.size_pos hx))

theorem not_occurs_nil : ¬ Occurs P [] := by
  rintro ⟨s, hs, hfind⟩
  rw [suffix_nil.mp hs, find_nil] at hfind
  cases hfind

variable {c : α} {cs : List α}

theorem occurs_cons_iff : Occurs P (c :: cs) ↔ (P.find (c :: cs)).isSome ∨ Occurs P cs := by
  constructor
  · rintro ⟨s, hs, hfind⟩
    rcases suffix_cons_iff.mp hs with rfl | hs
    · exact Or.inl hfind
    · exact Or.inr ⟨s, hs, hfind⟩
  · rintro (hfind | ⟨s, hs, hfind⟩)
    · exact ⟨c :: cs, suffix_refl _, hfind⟩
    · exact ⟨s, hs.trans (suffix_cons c cs), hfind⟩

variable {t : List α}

/-- A reference is there in any text that has all of it. -/
theorem occurs_append {x : μ} (h : P.find t = some x) (u w : List α) :
    Occurs P (u ++ (t.take (P.size x) ++ w)) :=
  ⟨_, suffix_append _ _, P.holds w h⟩

/-! ## The scan -/

theorem fillGo_eq_drop (value : μ → List α) (k : Nat) (t : List α) :
    fillGo P value k t = fill P value (t.drop k) := by
  induction t generalizing k with
  | nil => cases k <;> simp [fill, fillGo]
  | cons c cs ih =>
    cases k with
    | zero => rfl
    | succ k => simpa [fillGo] using ih k

@[simp] theorem fill_nil (value : μ → List α) : fill P value [] = [] := rfl

variable {value : μ → List α}

theorem fill_hit {x : μ} (h : P.find (c :: cs) = some x) :
    fill P value (c :: cs) = value x ++ fill P value ((c :: cs).drop (P.size x)) := by
  obtain ⟨n, hn⟩ : ∃ n, P.size x = n + 1 := ⟨P.size x - 1, by have := P.size_pos h; omega⟩
  rw [hn, drop_succ_cons, ← fillGo_eq_drop, fill, fillGo, h]
  simp [hn]

theorem fill_miss (h : P.find (c :: cs) = none) :
    fill P value (c :: cs) = c :: fill P value cs := by
  simp [fill, fillGo, h]

/-- The scan's own induction. -/
theorem fill_induction {motive : List α → Prop} (nil : motive [])
    (hit : ∀ c cs x, P.find (c :: cs) = some x → motive ((c :: cs).drop (P.size x)) → motive (c :: cs))
    (miss : ∀ c cs, P.find (c :: cs) = none → motive cs → motive (c :: cs)) : ∀ t, motive t := by
  intro t
  induction hlen : t.length using Nat.strong_induction_on generalizing t with
  | _ n ih =>
    cases t with
    | nil => exact nil
    | cons c cs =>
      cases hm : P.find (c :: cs) with
      | none => exact miss c cs hm (ih cs.length (by simp at hlen; omega) cs rfl)
      | some x =>
        have hpos := P.size_pos hm
        refine hit c cs x hm (ih ((c :: cs).drop (P.size x)).length ?_ _ rfl)
        simp only [length_drop, length_cons] at hlen ⊢
        omega

/-- A text without references is left as it is. -/
theorem fill_of_not_occurs (h : ¬ Occurs P t) : fill P value t = t := by
  induction t with
  | nil => rfl
  | cons c cs ih =>
    rw [occurs_cons_iff, not_or, Option.not_isSome_iff_eq_none] at h
    rw [fill_miss h.1, ih h.2]

/-- What is filled in is of the values and of the text. -/
theorem mem_fill (h : c ∈ fill P value t) : c ∈ t ∨ ∃ x, c ∈ value x := by
  induction t using fill_induction (P := P) with
  | nil => cases h
  | hit d cs x hfind ih =>
    rw [fill_hit hfind, mem_append] at h
    rcases h with h | h
    · exact Or.inr ⟨x, h⟩
    · exact (ih h).imp_left fun hmem => (drop_suffix _ _).subset hmem
  | miss d cs hfind ih =>
    rw [fill_miss hfind, mem_cons] at h
    rcases h with rfl | h
    · exact Or.inl mem_cons_self
    · exact (ih h).imp_left fun hmem => mem_cons_of_mem _ hmem

/-- **A text with references does not come out of its filling in**, not even with something
around it: what stands in front of the text has moved it along, and a value that makes up for
that has a reference itself. -/
theorem fill_moved (hvalue : ∀ x, ¬ Occurs P (value x)) :
    ∀ {x z : List α}, x ++ (t ++ z) = fill P value t → x = [] ∧ z = [] ∧ ¬ Occurs P t := by
  induction t using fill_induction (P := P) with
  | nil =>
    intro x z h
    obtain ⟨hx, hz⟩ := append_eq_nil_iff.mp h
    exact ⟨hx, hz, not_occurs_nil⟩
  | hit c cs m hfind ih =>
    intro x z h
    exfalso
    obtain ⟨rest, hrest⟩ : ∃ rest, c :: cs = (c :: cs).take (P.size m) ++ rest :=
      ⟨_, (take_append_drop _ _).symm⟩
    have hdrop : (c :: cs).drop (P.size m) = rest := by
      have heq := (take_append_drop (P.size m) (c :: cs)).trans hrest
      exact append_cancel_left heq
    rw [fill_hit hfind, hdrop] at h
    rw [hdrop] at ih
    have hsplit : (x ++ (c :: cs).take (P.size m)) ++ (rest ++ z) = value m ++ fill P value rest := by
      rw [← h, append_assoc]
      conv_rhs => rw [hrest]
      rw [append_assoc]
    rcases append_eq_append_iff.mp hsplit with ⟨w, hw, -⟩ | ⟨w, hw, htail⟩
    · -- the value reaches behind the reference
      refine hvalue m ?_
      rw [hw, append_assoc]
      exact occurs_append hfind x w
    · -- the text is moved along by `w`
      obtain ⟨rfl, -, -⟩ := ih htail.symm
      refine hvalue m ?_
      rw [append_nil] at hw
      rw [← hw, ← append_nil (List.take _ _)]
      exact occurs_append hfind x []
  | miss c cs hfind ih =>
    intro x z h
    rw [fill_miss hfind] at h
    cases x with
    | nil =>
      obtain ⟨-, hz, hocc⟩ := ih (x := []) (List.cons.inj h).2
      refine ⟨rfl, hz, ?_⟩
      rw [occurs_cons_iff, not_or]
      exact ⟨by simp [hfind], hocc⟩
    | cons d x =>
      have htail : (x ++ [c]) ++ (cs ++ z) = fill P value cs := by
        rw [append_assoc]
        exact (List.cons.inj h).2
      have hnil := (ih htail).1
      exact absurd hnil (by simp)

end Filling
