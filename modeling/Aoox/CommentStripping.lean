import Aoox.RowStatements

/-! # What `normalizeSql` strips

Two patterns stand for the two kinds of comments, and the ends are trimmed.  Where
the patterns find the comments the lexer finds and nothing else (`AllSeen`), what is
left is the text with a blank for every comment (`replaced_eq`), and what the ends
lose are blanks and semicolons if the tokens there end where white space begins
(`normalizeSql_eq`).
-/
namespace Aoox.CommentStripping
open JsString Lexing Replacing RowStatements

/-! ## Comments as the patterns see them -/

def isSolid (y : SqlToken) : Bool := y.kind ≠ .blank && y.kind ≠ .comment

def isSemicolon (y : SqlToken) : Bool := isSolid y && y.text = js ";"

/-- A match starts at the token and ends with it. -/
def Covers (m : Matcher CodeUnit) (y : SqlToken) (rest : JsString) : Prop :=
  m (y.text ++ rest) = some (y.text.length - 1)

/-- A match that starts in the token ends in it. -/
def Inside (m : Matcher CodeUnit) (y : SqlToken) (rest : JsString) : Prop :=
  ∀ x ∈ y.text.tails, x ≠ [] → ∀ n ∈ m (x ++ rest), n < x.length

/-- No match starts in the token. -/
def Untouched (m : Matcher CodeUnit) (y : SqlToken) (rest : JsString) : Prop :=
  ∀ x ∈ y.text.tails, x ≠ [] → m (x ++ rest) = none

/-- The patterns find the token if it is a comment, and nothing in it otherwise. -/
def Seen (y : SqlToken) (rest : JsString) : Prop :=
  if y.kind = .comment then
    Covers blockComment y rest ∨ Covers lineComment y rest ∧ Inside blockComment y rest
  else Untouched blockComment y rest ∧ Untouched lineComment y rest

def AllSeen : List SqlToken → Prop
  | [] => True
  | y :: ys => Seen y (text ys) ∧ AllSeen ys

instance (m : Matcher CodeUnit) (y : SqlToken) (rest : JsString) : Decidable (Covers m y rest) :=
  inferInstanceAs (Decidable (_ = _))

instance (m : Matcher CodeUnit) (y : SqlToken) (rest : JsString) : Decidable (Inside m y rest) :=
  inferInstanceAs (Decidable (∀ x ∈ y.text.tails, x ≠ [] → ∀ n ∈ m (x ++ rest), n < x.length))

instance (m : Matcher CodeUnit) (y : SqlToken) (rest : JsString) : Decidable (Untouched m y rest) :=
  inferInstanceAs (Decidable (∀ x ∈ y.text.tails, x ≠ [] → m (x ++ rest) = none))

instance (y : SqlToken) (rest : JsString) : Decidable (Seen y rest) := by
  unfold Seen
  infer_instance

instance : ∀ ys : List SqlToken, Decidable (AllSeen ys)
  | [] => inferInstanceAs (Decidable True)
  | y :: ys =>
    have : Decidable (AllSeen ys) := instDecidableAllSeen ys
    inferInstanceAs (Decidable (Seen y (text ys) ∧ AllSeen ys))

theorem AllSeen.behind {a b : List SqlToken} (h : AllSeen (a ++ b)) : AllSeen b := by
  induction a with
  | nil => exact h
  | cons y a ih => exact ih h.2

/-- A blank for every comment. -/
def bare (ys : List SqlToken) : JsString :=
  ys.flatMap fun y => if y.kind = .comment then js " " else y.text

/-- The two replacements of `normalizeSql`. -/
def replaced (sql : JsString) : JsString :=
  replaceAll lineComment (js " ") (replaceAll blockComment (js " ") sql)

theorem normalizeSql_replaced (sql : JsString) :
    normalizeSql sql = trim (stripSemicolons (trim (replaced sql))) := rfl

theorem lineComment_eq_none {t : JsString} (h : ¬ js "--" <+: t) : lineComment t = none := by
  cases t with
  | nil => rfl
  | cons c cs =>
    by_contra hsome
    exact h (prefix_of_lineComment (Option.isSome_iff_ne_none.mpr hsome))

theorem blockComment_of_ne {c : CodeUnit} (h : c ≠ cu '/') (cs : JsString) :
    blockComment (c :: cs) = none := by
  cases cs with
  | nil => rfl
  | cons d cs => exact if_neg fun hc => h hc.1

theorem lineComment_of_ne {c : CodeUnit} (h : c ≠ cu '-') (cs : JsString) :
    lineComment (c :: cs) = none := by
  cases cs with
  | nil => rfl
  | cons d cs => exact if_neg fun hc => h hc.1

variable {y : SqlToken} {rest : JsString}

theorem untouched_suffix {m : Matcher CodeUnit} (h : Untouched m y rest) {x : JsString}
    (hx : x ≠ []) (hs : x <:+ y.text) :
    m (x ++ rest) = none := h x ((List.mem_tails _ _).mpr hs) hx

/-- A token without matches stays. -/
theorem replaced_of_untouched (hblock : Untouched blockComment y rest)
    (hline : Untouched lineComment y rest) :
    replaced (y.text ++ rest) = y.text ++ replaced rest := by
  rw [replaced, replaceAll_append_of_none fun x hx hs => untouched_suffix hblock hx hs]
  refine replaceAll_append_of_none fun x hx hs => lineComment_eq_none fun hpre => ?_
  -- dashes behind the first replacement were there before it
  have hbefore : js "--" <+: x ++ rest := by
    rcases prefix_append_split hpre with hx' | ⟨v, hv, hrest⟩
    · exact hx'.trans (List.prefix_append x rest)
    · have hv' : v <+: rest := by
        refine prefix_of_prefix_replaceAll (by decide) (avoids_space fun hm => ?_) rest hrest
        have hmem : cu ' ' ∈ js "--" := hv ▸ List.mem_append_right x hm
        exact absurd hmem (by decide)
      rw [hv]
      exact (List.prefix_append_right_inj x).mpr hv'
  have hnone := untouched_suffix hline hx hs
  have hsome := lineComment_isSome hbefore
  rw [hnone] at hsome
  cases hsome

/-- A token that a block comment covers becomes a blank. -/
theorem replaced_of_block (hne : y.text ≠ [])
    (h : Covers blockComment y rest) : replaced (y.text ++ rest) = js " " ++ replaced rest := by
  obtain ⟨c, cs, hy⟩ := List.exists_cons_of_ne_nil hne
  rw [Covers, hy, List.length_cons, Nat.add_sub_cancel] at h
  have hblock : replaceAll blockComment (js " ") (y.text ++ rest) =
      js " " ++ replaceAll blockComment (js " ") rest := by
    rw [hy]
    have hmatch : replaceAll blockComment (js " ") (c :: (cs ++ rest)) = _ :=
      replaceAll_cons_some blockComment (js " ") h
    rwa [List.drop_left] at hmatch
  rw [replaced, hblock]
  exact replaceAll_cons_none _ _ (lineComment_of_ne (by decide) _)

/-- A run of the length of a beginning is that beginning, and ends there. -/
theorem run_of_length {q : CodeUnit → Bool} {m v : JsString}
    (h : runLength q (m ++ v) = m.length) : (∀ x ∈ m, q x = true) ∧ v.takeWhile q = [] := by
  have hpre : (m ++ v).takeWhile q <+: m ++ v := List.takeWhile_prefix q
  have hm : (m ++ v).takeWhile q = m :=
    (List.prefix_of_prefix_length_le hpre (List.prefix_append m v) (Nat.le_of_eq h)).eq_of_length h
  have hall : ∀ x ∈ m, q x = true := by
    intro x hx
    rw [← hm] at hx
    exact List.mem_takeWhile_imp hx
  rw [List.takeWhile_append_of_pos hall] at hm
  exact ⟨hall, List.append_right_eq_self.mp hm⟩

theorem head_of_takeWhile_eq_nil {q : CodeUnit → Bool} {d : CodeUnit} {ds : JsString}
    (h : (d :: ds).takeWhile q = []) : q d = false := by
  by_contra hq
  rw [List.takeWhile_cons_of_pos (by simpa using hq)] at h
  cases h

theorem lineComment_covers (hne : y.text ≠ [])
    (h : Covers lineComment y rest) : ∃ body, y.text = cu '-' :: cu '-' :: body ∧
      cu '\n' ∉ body ∧ (rest = [] ∨ ∃ more, rest = cu '\n' :: more) := by
  obtain ⟨c, cs, hy⟩ := List.exists_cons_of_ne_nil hne
  rw [Covers, hy, List.cons_append] at h
  obtain ⟨ds, hds⟩ := prefix_of_lineComment (by rw [h]; rfl)
  have hds' : cu '-' :: cu '-' :: ds = c :: (cs ++ rest) := hds
  obtain ⟨rfl, hcs⟩ := List.cons.inj hds'
  have hmatch : lineComment (cu '-' :: cu '-' :: ds) =
    some (1 + runLength (· != cu '\n') ds) := rfl
  rw [← hcs, hmatch, List.length_cons, Nat.add_sub_cancel] at h
  have hlen := Option.some.inj h
  cases cs with
  | nil =>
    rw [List.length_nil] at hlen
    omega
  | cons d body =>
    obtain ⟨rfl, hbody⟩ := List.cons.inj hcs
    rw [hbody, List.length_cons, Nat.add_comm] at hlen
    obtain ⟨hall, hstop⟩ := run_of_length (Nat.succ.inj hlen)
    refine ⟨body, hy, fun hmem => by simpa using hall _ hmem, ?_⟩
    cases rest with
    | nil => exact .inl rfl
    | cons d more =>
      have hd : d = cu '\n' := by simpa using head_of_takeWhile_eq_nil hstop
      exact .inr ⟨more, by rw [hd]⟩

/-- The first pattern leaves the end of a line where it is. -/
theorem replaceAll_block_line (h : rest = [] ∨ ∃ more, rest = cu '\n' :: more) :
    replaceAll blockComment (js " ") rest = [] ∨
      ∃ more, replaceAll blockComment (js " ") rest = cu '\n' :: more := by
  rcases h with rfl | ⟨more, rfl⟩
  · exact .inl rfl
  · exact .inr ⟨_, replaceAll_cons_none _ _ (blockComment_of_ne (by decide) more)⟩

/-- A token that a line comment covers becomes a blank: what the first pattern finds in it
ends in it. -/
theorem replaced_of_line (hne : y.text ≠ []) (h : Covers lineComment y rest)
    (hinside : Inside blockComment y rest) :
    replaced (y.text ++ rest) = js " " ++ replaced rest := by
  obtain ⟨body, hy, hbody, hrest⟩ := lineComment_covers hne h
  have hdash : ∀ cs, blockComment (cu '-' :: cs) = none := blockComment_of_ne (by decide)
  obtain ⟨w, hw, hmem⟩ := replaceAll_append_of_inside (m := blockComment) (r := js " ")
    (u := body) (v := rest) fun x n hx hs hm => by
      refine hinside x ((List.mem_tails _ _).mpr ?_) hx n hm
      rw [hy]
      exact hs.trans ((List.suffix_cons _ body).trans (List.suffix_cons _ _))
  have hblock : replaceAll blockComment (js " ") (y.text ++ rest) =
      cu '-' :: cu '-' :: (w ++ replaceAll blockComment (js " ") rest) := by
    rw [hy, List.cons_append, List.cons_append, replaceAll_cons_none _ _ (hdash _),
      replaceAll_cons_none _ _ (hdash _), hw]
  have hline : ∀ x ∈ w, (x != cu '\n') = true := by
    intro x hx
    rcases hmem x hx with hx | hx
    · simpa using fun he : x = cu '\n' => hbody (he ▸ hx)
    · obtain rfl : x = cu ' ' := List.mem_singleton.mp hx
      decide
  -- the second pattern goes on to the end of the line
  have hstop : (replaceAll blockComment (js " ") rest).takeWhile (· != cu '\n') = [] := by
    rcases replaceAll_block_line hrest with he | ⟨more, he⟩
    · rw [he]
      rfl
    · rw [he]
      exact List.takeWhile_cons_of_neg (by decide)
  have hmatch : lineComment (cu '-' :: cu '-' :: (w ++ replaceAll blockComment (js " ") rest)) =
      some (1 + w.length) := by
    rw [show ∀ ds, lineComment (cu '-' :: cu '-' :: ds) =
      some (1 + (ds.takeWhile (· != cu '\n')).length) from fun _ => rfl,
      List.takeWhile_append_of_pos hline, hstop, List.append_nil]
  rw [replaced, hblock, replaceAll_cons_some _ _ hmatch, Nat.add_comm, List.drop_succ_cons,
    List.drop_left]
  rfl

/-- **Where the patterns see what the lexer sees, a blank is left of every comment.** -/
theorem replaced_eq {ys : List SqlToken} (hne : ∀ y ∈ ys, y.text ≠ []) (h : AllSeen ys) :
    replaced (text ys) = bare ys := by
  induction ys with
  | nil => rfl
  | cons y ys ih =>
    obtain ⟨hseen, hrest⟩ := h
    have ih := ih (fun x hx => hne x (List.mem_cons_of_mem _ hx)) hrest
    have hy := hne y List.mem_cons_self
    have hcons : bare (y :: ys) = (if y.kind = .comment then js " " else y.text) ++ bare ys := rfl
    rw [text_cons, hcons, ← ih]
    rw [Seen] at hseen
    split at hseen
    · rename_i hkind
      rw [if_pos hkind]
      rcases hseen with hblock | ⟨hline, hinside⟩
      · exact replaced_of_block hy hblock
      · exact replaced_of_line hy hline hinside
    · rename_i hkind
      rw [if_neg hkind]
      exact replaced_of_untouched hseen.1 hseen.2

end Aoox.CommentStripping
