import Mathlib.Data.List.Infix
import Mathlib.Data.List.SplitBy

/-! # Reading a text token by token

A *lexer* looks at the head of a non-empty text, in a state, and says what kind
of token starts there, how far the token reaches and in which state reading goes
on behind it.  It may look ahead as far as it likes.  Reading a text with it
gives tokens whose texts join to the text again (`text_read`), so a place between
two tokens is a place in the text.

The tokens are then cut into *statements*: some tokens end a statement, some are
content, and a piece between two ends is a statement when it has content.  The
result used everywhere is `statements_length_eq_one_iff`: a text that begins with
content is exactly one statement iff no content stands behind an end.
-/
open List
namespace Lexing
variable {α σ κ : Type}

/-- What starts at the head of a text: its kind, the number of elements behind
the head that belong to it, and the state behind it. -/
structure Lexeme (κ σ : Type) where
  kind : κ
  more : Nat
  next : σ

/-- A lexer, given the state, the head and the rest of a non-empty text. -/
abbrev Lexer (α σ κ : Type) := σ → α → List α → Lexeme κ σ

/-- A token: its kind and its text. -/
structure Token (κ α : Type) where
  kind : κ
  text : List α
deriving DecidableEq

/-- The reading loop.  The number counts the elements of the last token that are
still to be passed over. -/
def readGo (L : Lexer α σ κ) : Nat → σ → List α → List (Token κ α)
  | _, _, [] => []
  | k + 1, s, _ :: cs => readGo L k s cs
  | 0, s, c :: cs =>
    ⟨(L s c cs).kind, c :: cs.take (L s c cs).more⟩ ::
      readGo L (L s c cs).more (L s c cs).next cs

def read (L : Lexer α σ κ) (s : σ) (t : List α) : List (Token κ α) := readGo L 0 s t

def text (ts : List (Token κ α)) : List α := ts.flatMap Token.text

@[simp] theorem text_nil : text ([] : List (Token κ α)) = [] := rfl

@[simp] theorem text_cons (y : Token κ α) (ts : List (Token κ α)) :
    text (y :: ts) = y.text ++ text ts := rfl

@[simp] theorem text_append (a b : List (Token κ α)) : text (a ++ b) = text a ++ text b :=
  flatMap_append

variable {s : σ} {t : List α}

section Reading
variable (L : Lexer α σ κ)

theorem readGo_eq_drop (k : Nat) (s : σ) (t : List α) : readGo L k s t = read L s (t.drop k) := by
  induction t generalizing k with
  | nil => cases k <;> simp [read, readGo]
  | cons c cs ih =>
    cases k with
    | zero => rfl
    | succ k => simpa [readGo] using ih k

@[simp] theorem read_nil (s : σ) : read L s [] = [] := rfl

theorem read_cons (s : σ) (c : α) (cs : List α) :
    read L s (c :: cs) = ⟨(L s c cs).kind, c :: cs.take (L s c cs).more⟩ ::
      read L (L s c cs).next (cs.drop (L s c cs).more) := by
  rw [← readGo_eq_drop]
  rfl

/-- The induction along the tokens of a text. -/
theorem read_induction {motive : σ → List α → Prop} (nil : ∀ s, motive s [])
    (cons : ∀ s c cs, motive (L s c cs).next (cs.drop (L s c cs).more) → motive s (c :: cs)) :
    ∀ s t, motive s t := by
  intro s t
  induction hlen : t.length using Nat.strong_induction_on generalizing s t with
  | _ n ih =>
    cases t with
    | nil => exact nil s
    | cons c cs =>
      refine cons s c cs (ih (cs.drop (L s c cs).more).length ?_ _ _ rfl)
      rw [length_drop]
      simp only [length_cons] at hlen
      omega

theorem read_eq_cons {L : Lexer α σ κ} {y : Token κ α} {ts : List (Token κ α)}
    (h : read L s t = y :: ts) : ∃ c cs, t = c :: cs ∧
      y = ⟨(L s c cs).kind, c :: cs.take (L s c cs).more⟩ ∧
      ts = read L (L s c cs).next (cs.drop (L s c cs).more) := by
  cases t with
  | nil => cases h
  | cons c cs =>
    rw [read_cons] at h
    obtain ⟨rfl, rfl⟩ := List.cons.inj h
    exact ⟨c, cs, rfl, rfl, rfl⟩

/-- No token is empty. -/
theorem text_ne_nil : ∀ y ∈ read L s t, y.text ≠ [] := by
  induction s, t using read_induction L with
  | nil s => simp
  | cons s c cs ih =>
    rw [read_cons]
    intro y hy
    rcases mem_cons.mp hy with rfl | hy
    · exact cons_ne_nil _ _
    · exact ih y hy

/-- **Nothing is lost in reading.** -/
theorem text_read (s : σ) (t : List α) : text (read L s t) = t := by
  induction s, t using read_induction L with
  | nil s => rfl
  | cons s c cs ih => simp [read_cons, ih]

end Reading

/-! ## Tokens that leave the state alone -/

section Transparent
variable (L : Lexer α σ κ) (p : κ → Bool)

/-- The lexer for which tokens of some kinds do not change the state. -/
def transparent : Lexer α σ κ := fun s c cs =>
  if p (L s c cs).kind then { L s c cs with next := s } else L s c cs

theorem transparent_kind (s : σ) (c : α) (cs : List α) :
    (transparent L p s c cs).kind = (L s c cs).kind := by
  rw [transparent]
  split <;> rfl

theorem transparent_more (s : σ) (c : α) (cs : List α) :
    (transparent L p s c cs).more = (L s c cs).more := by
  rw [transparent]
  split <;> rfl

variable {L p}

variable {cs : List α} {c : α}

theorem transparent_of_false (h : p (L s c cs).kind = false) :
    transparent L p s c cs = L s c cs := by
  rw [transparent, h]
  rfl

theorem transparent_next (h : p (L s c cs).kind = true) : (transparent L p s c cs).next = s := by
  rw [transparent, h]
  rfl

/-- Where there is only one state, they never do. -/
theorem transparent_eq_self [Subsingleton σ] : transparent L p = L := by
  funext s c cs
  rw [transparent]
  split
  · cases L s c cs with
    | mk kind more next => rw [Subsingleton.elim s next]
  · rfl

/-- Where there are no such tokens, nothing changes. -/
theorem read_of_read_transparent (h : ∀ y ∈ read (transparent L p) s t, p y.kind = false) :
    read L s t = read (transparent L p) s t := by
  induction s, t using read_induction (transparent L p) with
  | nil s => rfl
  | cons s c cs ih =>
    rw [read_cons (transparent L p)] at h ⊢
    have hhead := h _ mem_cons_self
    rw [transparent_kind] at hhead
    have hsame := transparent_of_false hhead
    have hrest := ih fun y hy => h y (mem_cons_of_mem _ hy)
    rw [hsame] at hrest ⊢
    rw [read_cons L, hrest]

end Transparent

/-! ## Statements -/

section Statements
variable {τ : Type} (stop content : τ → Bool)

/-- The statements of a list of tokens: the pieces between the tokens that end a
statement, less those without content. -/
def statements (ts : List τ) : List (List τ) :=
  (ts.splitOnP stop).filter (·.any content)

theorem statements_append_cons (a b : List τ) {y : τ} (hy : stop y) :
    statements stop content (a ++ y :: b) =
      statements stop content a ++ statements stop content b := by
  simp [statements, splitOnP_append_cons a b hy]

theorem statements_of_no_stop {ts : List τ} (h : ∀ y ∈ ts, stop y = false) :
    statements stop content ts = if ts.any content then [ts] else [] := by
  rw [statements, splitOnP_eq_singleton h, filter_singleton]
  cases ts.any content <;> rfl

/-- Either no token ends a statement, or there is a first one that does. -/
theorem first_stop (ts : List τ) : (∀ y ∈ ts, stop y = false) ∨
      ∃ a y b, ts = a ++ y :: b ∧ stop y ∧ ∀ z ∈ a, stop z = false := by
  cases hf : ts.find? stop with
  | none => exact Or.inl (by simpa using hf)
  | some y =>
    obtain ⟨hy, a, b, rfl, ha⟩ := List.find?_eq_some_iff_append.mp hf
    exact Or.inr ⟨a, y, b, rfl, hy, by simpa using ha⟩

variable {stop content}

theorem mem_behind_first_stop {a₀ b₀ a b : List τ} {y₀ y : τ}
    (ha₀ : ∀ z ∈ a₀, stop z = false) (h : a₀ ++ y₀ :: b₀ = a ++ y :: b) (hy : stop y) :
    ∀ z ∈ b, z ∈ b₀ := by
  intro z hz
  rcases append_eq_append_iff.mp h with ⟨w, rfl, hw⟩ | ⟨w, rfl, hw⟩
  · cases w with
    | nil =>
      obtain ⟨-, rfl⟩ := List.cons.inj hw
      exact hz
    | cons v w =>
      obtain ⟨-, rfl⟩ := List.cons.inj hw
      exact mem_append_right w (mem_cons_of_mem y hz)
  · cases w with
    | nil =>
      obtain ⟨-, rfl⟩ := List.cons.inj hw
      exact hz
    | cons v w =>
      -- Here `y` itself would stand before the first end.
      obtain ⟨rfl, -⟩ := List.cons.inj hw
      exact absurd hy (by simp [ha₀ y (by simp)])

theorem statements_eq_nil_iff (hsc : ∀ y, stop y → content y = false) (ts : List τ) :
    statements stop content ts = [] ↔ ∀ z ∈ ts, content z = false := by
  induction hlen : ts.length using Nat.strong_induction_on generalizing ts with
  | _ n ih =>
    rcases first_stop stop ts with hno | ⟨a, y, b, rfl, hy, ha⟩
    · rw [statements_of_no_stop stop content hno]
      simp
    · have hb : b.length < n := by
        rw [length_append, length_cons] at hlen
        omega
      rw [statements_append_cons stop content a b hy, append_eq_nil_iff,
        statements_of_no_stop stop content ha, ih b.length hb b rfl]
      rw [forall_mem_append, forall_mem_cons]
      simp [hsc y hy]

/-- **Exactly one statement.**  A list of tokens that begins with content is one
statement iff no content stands behind a token that ends a statement. -/
theorem statements_length_eq_one_iff (hsc : ∀ y, stop y → content y = false) {x : τ}
    (hx : content x) (ts : List τ) :
    (statements stop content (x :: ts)).length = 1 ↔
      ∀ a y b, x :: ts = a ++ y :: b → stop y → ∀ z ∈ b, content z = false := by
  rcases first_stop stop (x :: ts) with hno | ⟨a₀, y₀, b₀, heq, hy₀, ha₀⟩
  · rw [statements_of_no_stop stop content hno]
    simp only [any_cons, hx, Bool.true_or, if_true, length_singleton, true_iff]
    intro a y b h hy
    have hymem : y ∈ x :: ts := by simp [h]
    exact absurd hy (by simp [hno y hymem])
  · -- The first end cuts off a piece that begins with `x`; the rest must be idle.
    have hxa : x ∈ a₀ := by
      cases a₀ with
      | nil =>
        obtain ⟨rfl, -⟩ := List.cons.inj heq
        simp [hsc x hy₀] at hx
      | cons w a₀ =>
        obtain ⟨rfl, -⟩ := List.cons.inj heq
        exact mem_cons_self
    have hany : a₀.any content = true := any_eq_true.mpr ⟨x, hxa, hx⟩
    rw [heq, statements_append_cons stop content a₀ b₀ hy₀,
      statements_of_no_stop stop content ha₀, hany]
    have hone : (([a₀] ++ statements stop content b₀).length = 1) ↔
        ∀ z ∈ b₀, content z = false := by
      rw [← statements_eq_nil_iff hsc b₀, ← length_eq_zero_iff]
      simp
    rw [if_pos rfl, hone]
    constructor
    · intro h a y b hab hy z hz
      exact h z (mem_behind_first_stop ha₀ hab hy z hz)
    · intro h
      exact h a₀ y₀ b₀ rfl hy₀

end Statements
end Lexing
