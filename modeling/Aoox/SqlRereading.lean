import Aoox.CommentStripping

/-! # Reading a text again without its comments

With a blank for every comment, the tokens that are no comments are read as before.  A
lexer looks beyond a token only to find where it ends, and what it finds there is the
same character, a blank, or the end (`Alike`); none of the rules of the two clients
distinguishes these where it has stopped (`MySql.goesOn`, `Psql.goesOn`).  What follows
from that is said once for any lexer (`Dialect`, `read_bare`).
-/
open List Option
namespace Aoox.SqlRereading

open JsString Lexing CommentStripping

variable {σ : Type}

/-! ## What stands behind a token -/

/-- The text is at its end, or a blank, a comment or a semicolon can start here. -/
def EndsToken (a : JsString) : Prop :=
  ∀ d ∈ a.head?, isBlank d ∨ d = cu '/' ∨ d = cu '-' ∨ d = cu ';'

/-- Both texts go on alike up to where the one has a comment and the other one a blank, or
the other one ends. -/
def Alike (v v' : JsString) : Prop :=
  ∃ p a b, v = p ++ a ∧ v' = p ++ b ∧ EndsToken a ∧
    (b = [] ∨ (a.head? = some (cu '/') ∨ a.head? = some (cu '-')) ∧ b.head? = some (cu ' '))

variable {v v' : JsString}

theorem Alike.append (h : Alike v v') (m : JsString) : Alike (m ++ v) (m ++ v') := by
  obtain ⟨p, a, b, rfl, rfl, hab⟩ := h
  exact ⟨m ++ p, a, b, (append_assoc m p a).symm, (append_assoc m p b).symm, hab⟩

/-- What the other text begins with. -/
theorem Alike.head_cases (h : Alike v v') : v'.head? = v.head? ∨ v' = [] ∧ EndsToken v ∨
      v'.head? = some (cu ' ') ∧ (v.head? = some (cu '/') ∨ v.head? = some (cu '-')) := by
  obtain ⟨p, a, b, rfl, rfl, hstops, hb⟩ := h
  cases p with
  | nil => exact .inr (hb.imp (fun hb => ⟨hb, hstops⟩) And.symm)
  | cons c p => exact .inl rfl

/-- Neither text can stop at the character, and it is no blank. -/
def Firm (d : CodeUnit) : Prop :=
  isBlank d = false ∧ d ≠ cu '/' ∧ d ≠ cu '-' ∧ d ≠ cu ';' ∧ d ≠ cu ' '

instance (d : CodeUnit) : Decidable (Firm d) := inferInstanceAs (Decidable (_ ∧ _))

variable {d : CodeUnit}

/-- A character at which no text stops begins both or none. -/
theorem Alike.head_eq (h : Alike v v') (hd : Firm d) :
    (v'.head? == some d) = (v.head? == some d) := by
  obtain ⟨hblank, hslash, hdash, hsemi, hspace⟩ := hd
  rcases h.head_cases with he | ⟨rfl, hstops⟩ | ⟨he, hv⟩
  · rw [he]
  · refine (beq_eq_false_iff_ne.mpr fun he => ?_).symm
    rcases hstops d he with hb | rfl | rfl | rfl
    · rw [hblank] at hb
      cases hb
    · exact hslash rfl
    · exact hdash rfl
    · exact hsemi rfl
  · have hne : (v'.head? == some d) = false := by
      rw [he]
      simpa using hspace.symm
    rw [hne]
    refine (beq_eq_false_iff_ne.mpr fun hvd => ?_).symm
    rcases hv with hv | hv <;> obtain rfl := some.inj (hv.symm.trans hvd)
    · exact hslash rfl
    · exact hdash rfl

/-- A character that is no blank begins the first text if it begins the second. -/
theorem Alike.head_of (h : Alike v v') (hd : d ≠ cu ' ')
    (hv : v'.head? = some d) : v.head? = some d := by
  rcases h.head_cases with he | ⟨rfl, -⟩ | ⟨he, -⟩
  · exact he ▸ hv
  · cases hv
  · exact absurd (some.inj (hv.symm.trans he)) hd

/-- No text stops at a character with the property. -/
def Goes (q : CodeUnit → Bool) : Prop :=
  (∀ d, isBlank d → q d = false) ∧ q (cu '/') = false ∧ q (cu '-') = false ∧ q (cu ';') = false

variable {q : CodeUnit → Bool}

theorem Goes.of_stops (hq : Goes q) {a : JsString} (h : EndsToken a) : a.takeWhile q = [] := by
  cases a with
  | nil => rfl
  | cons d a =>
    refine takeWhile_cons_of_neg ?_
    rcases h d rfl with hb | rfl | rfl | rfl
    · simp [hq.1 d hb]
    · simp [hq.2.1]
    · simp [hq.2.2.1]
    · simp [hq.2.2.2]

variable {b : JsString} {p : Prop}

theorem stops_of_cut (h : b = [] ∨ p ∧ b.head? = some (cu ' ')) : EndsToken b := by
  intro d hd
  rcases h with rfl | ⟨-, hb⟩
  · cases hd
  · obtain rfl := some.inj (hb.symm.trans hd)
    exact .inl (by decide)

/-- A run of such characters is the same in both. -/
theorem Alike.takeWhile_eq (h : Alike v v') (hq : Goes q) : v'.takeWhile q = v.takeWhile q := by
  obtain ⟨p, a, b, rfl, rfl, hstops, hb⟩ := h
  rw [takeWhile_append, takeWhile_append, hq.of_stops hstops, hq.of_stops (stops_of_cut hb)]

theorem Alike.dropWhile (h : Alike v v') (hq : Goes q) :
    Alike (v.dropWhile q) (v'.dropWhile q) := by
  obtain ⟨p, a, b, rfl, rfl, hstops, hb⟩ := h
  have hkeep : ∀ t : JsString, t.takeWhile q = [] → t.dropWhile q = t := by
    intro t ht
    have hsplit := takeWhile_append_dropWhile (p := q) (l := t)
    rwa [ht, nil_append] at hsplit
  rw [dropWhile_append, dropWhile_append, hkeep a (hq.of_stops hstops),
    hkeep b (hq.of_stops (stops_of_cut hb))]
  split
  · exact ⟨[], a, b, rfl, rfl, hstops, hb⟩
  · exact ⟨_, a, b, rfl, rfl, hstops, hb⟩

/-! ## Where a token ends -/

variable {cs : JsString}

theorem quotedLength_pos (q : CodeUnit) (escapes : Bool) (h : cs ≠ []) :
    0 < quotedLength q escapes cs := by
  fun_cases quotedLength q escapes cs with
  | case1 => exact absurd rfl h
  | case2 => omega
  | case3 => omega
  | case4 => omega
  | case5 => omega

variable {m : JsString}

/-- A quoted text that is closed ends where it does, unless another quote follows. -/
theorem quotedLength_append {q : CodeUnit} {escapes : Bool} (hv : v ≠ [])
    (hquote : v'.head? = some q → v.head? = some q)
    (h : quotedLength q escapes (m ++ v) = m.length) :
    quotedLength q escapes (m ++ v') = m.length := by
  induction hlen : m.length using Nat.strong_induction_on generalizing m with
  | _ k ih =>
    match m with
    | [] =>
      have hpos := quotedLength_pos q escapes hv
      rw [nil_append, length_nil] at h
      omega
    | [c] =>
      obtain ⟨d, ds, rfl⟩ := exists_cons_of_ne_nil hv
      rw [singleton_append, length_singleton, quotedLength] at h
      split at h
      · omega
      · rename_i hpair
        split at h
        · rename_i hc
          -- the closing quote
          rw [singleton_append, ← hlen, length_singleton]
          cases v' with
          | nil => rfl
          | cons e es =>
            simp only [Bool.or_eq_true, Bool.and_eq_true, beq_iff_eq, not_or] at hpair hc
            have he : e ≠ q := by
              rintro rfl
              exact hpair.2 ⟨hc, some.inj (hquote rfl)⟩
            rw [quotedLength, if_neg, if_pos (beq_iff_eq.mpr hc)]
            simp only [Bool.or_eq_true, Bool.and_eq_true, beq_iff_eq, not_or]
            exact ⟨hpair.1, fun hboth => he hboth.2⟩
        · have hpos := quotedLength_pos q escapes (cons_ne_nil d ds)
          omega
    | c :: d :: m =>
      simp only [length_cons] at hlen h
      rw [cons_append, cons_append, quotedLength] at h ⊢
      split at h
      · rename_i hpair
        rw [if_pos hpair, ih m.length (by omega) (by omega) rfl]
        omega
      · rename_i hpair
        rw [if_neg hpair]
        split at h
        · omega
        · rename_i hc
          have hm : quotedLength q escapes (d :: m ++ v) = (d :: m).length := by
            rw [cons_append, length_cons]
            omega
          have hrec := ih (d :: m).length (by simp only [length_cons]; omega) hm rfl
          rw [if_neg hc, ← cons_append, hrec, length_cons]
          omega

/-- A run that has ended in front of the one text ends in front of the other one. -/
theorem runLength_append (hv : v.takeWhile q = [] → v'.takeWhile q = [])
    (h : runLength q (m ++ v) = m.length) : runLength q (m ++ v') = m.length := by
  obtain ⟨hall, hstop⟩ := run_of_length h
  rw [runLength, takeWhile_append_of_pos hall, hv hstop, append_nil]

/-- A word ends within the letters, digits and signs that follow its first character. -/
theorem wordLength_takeWhile (c : CodeUnit) (cs : JsString) :
    wordLength c cs = wordLength c (cs.takeWhile isIdentCont) := by
  have hcs : cs.takeWhile isIdentCont ++ cs.dropWhile isIdentCont = cs := takeWhile_append_dropWhile
  have hstop : ∀ d ∈ (cs.dropWhile isIdentCont).head?, isIdentCont d = false := by
    intro d hd
    have hnot := List.head?_dropWhile_not isIdentCont cs
    rw [hd] at hnot
    simpa using hnot
  generalize cs.dropWhile isIdentCont = z at hcs hstop
  have hall : ∀ x ∈ cs.takeWhile isIdentCont, isIdentCont x = true := fun x hx =>
    mem_takeWhile_imp hx
  generalize cs.takeWhile isIdentCont = run at hcs hall ⊢
  subst hcs
  have hz : ∀ q : CodeUnit → Bool, (∀ d, isIdentCont d = false → q d = false) →
      z.takeWhile q = [] := by
    intro q hq
    cases z with
    | nil => rfl
    | cons d z => exact takeWhile_cons_of_neg (by simp [hq d (hstop d rfl)])
  have hdigit : ∀ d, isIdentCont d = false → isDigit d = false := by
    intro d hd
    simp only [isIdentCont, Bool.or_eq_false_iff] at hd
    exact hd.1.2
  have hstart : ∀ d, isIdentCont d = false → isIdentStart d = false := by
    intro d hd
    simp only [isIdentCont, Bool.or_eq_false_iff] at hd
    exact hd.1.1
  have hrun : ∀ u : JsString, (∀ x ∈ u, isIdentCont x = true) →
      runLength isIdentCont (u ++ z) = runLength isIdentCont u := by
    intro u hu
    rw [runLength, runLength, takeWhile_append_of_pos hu, hz _ (fun _ h => h),
      append_nil, takeWhile_eq_self_iff.mpr hu]
  have hdigits : runLength isDigit (run ++ z) = runLength isDigit run := by
    rw [runLength, runLength, takeWhile_append, hz _ hdigit, append_nil]
    split
    · rename_i hfull
      rw [hfull]
    · rfl
  have hle : runLength isDigit run ≤ run.length := (List.takeWhile_prefix _).length_le
  have hdrop : (run ++ z).drop (runLength isDigit run) = run.drop (runLength isDigit run) ++ z :=
    drop_append_of_le_length hle
  simp only [wordLength, hdigits, hdrop, hrun run hall]
  refine if_congr Iff.rfl ?_ rfl
  cases hd : run.drop (runLength isDigit run) with
  | nil =>
    cases z with
    | nil => rfl
    | cons d z =>
      have hd' : isIdentStart d = false := hstart d (hstop d rfl)
      simp [hd']
  | cons d ds =>
    have hds : ∀ x ∈ d :: ds, isIdentCont x = true := fun x hx =>
      hall x (mem_of_mem_drop (hd.symm ▸ hx))
    simp only [cons_append]
    rw [← cons_append, hrun _ hds]

/-- What is found within a text is found there whatever follows. -/
theorem indexOf_append {needle a : JsString} {i : Nat} (h : indexOf needle (a ++ b) 0 = some i)
    (hi : i + needle.length ≤ a.length) (hn : needle ≠ [])
    (b' : JsString) : indexOf needle (a ++ b') 0 = some i := by
  have hpos : 0 < needle.length := length_pos_iff.mpr hn
  induction a generalizing i with
  | nil =>
    rw [length_nil] at hi
    omega
  | cons c a ih =>
    have hsame : ∀ d : JsString, needle.length ≤ (c :: a).length →
        (needle <+: c :: (a ++ d) ↔ needle <+: c :: a) := fun d hle =>
      ⟨fun hp => prefix_of_prefix_length_le hp (prefix_append (c :: a) d) hle,
        fun hp => hp.trans (prefix_append (c :: a) d)⟩
    have hle : needle.length ≤ (c :: a).length := by omega
    rw [cons_append, indexOf] at h ⊢
    rw [if_congr (hsame b' hle) rfl rfl]
    rw [if_congr (hsame b hle) rfl rfl] at h
    split at h
    · rename_i hp
      rw [if_pos hp, h]
    · rename_i hp
      obtain ⟨j, hj, rfl⟩ := map_eq_some_iff.mp h
      rw [length_cons] at hi
      rw [if_neg hp, ih hj (by omega)]
      rfl

/-! ## Rules that give the same lexeme -/

/-- The second lexeme is the first one, if that is no comment and has the length. -/
def Same (n : Nat) (x x' : Lexeme SqlKind σ) : Prop := x.kind ≠ .comment → x.more = n → x' = x

variable {n : Nat}

theorem Same.refl (x : Lexeme SqlKind σ) : Same n x x := fun _ _ => rfl

theorem Same.ite {p' : Prop} [Decidable p] [Decidable p'] {x y x' y' : Lexeme SqlKind σ}
    (hp : p' ↔ p) (hx : p → Same n x x') (hy : ¬ p → Same n y y') :
    Same n (if p then x else y) (if p' then x' else y') := by
  by_cases h : p
  · rw [if_pos h, if_pos (hp.mpr h)]
    exact hx h
  · rw [if_neg h, if_neg (mt hp.mp h)]
    exact hy h

variable {k : Nat} {s : σ}

theorem Same.comment {x : Lexeme SqlKind σ} : Same n ⟨.comment, k, s⟩ x :=
  fun hkind => absurd rfl hkind

/-- Two lexemes that differ at most in their length. -/
theorem Same.more {k' : Nat} {kind : SqlKind} (h : k = n → k' = n) :
    Same n ⟨kind, k, s⟩ ⟨kind, k', s⟩ := fun _ hk => by rw [h hk, ← hk]

/-- Blanks are the characters `isBlank` names, whatever follows them, and the lexer is as
good as at its start behind one; other tokens than comments are read alike in texts that
go on alike. -/
structure Dialect (L : Lexer CodeUnit σ SqlKind) (start : σ) : Prop where
  space : ∀ s cs, L s (cu ' ') cs = ⟨.blank, 0, s⟩
  blank : ∀ s c cs cs', (L s c cs).kind = .blank →
    isBlank c = true ∧ (L s c cs).more = 0 ∧ L s c cs' = L s c cs
  idle : ∀ c cs, (L start c cs).kind = .blank → (L start c cs).next = start
  goesOn : ∀ s c m v v', v ≠ [] → Alike v v' → lineComment (c :: (m ++ v)) = none →
    Same m.length (L s c (m ++ v)) (L s c (m ++ v'))

variable {c : CodeUnit}

variable {cs' : JsString}

theorem dashes_iff (h : lineComment (c :: cs) = none)
    (hcs : cs'.head? = some (cu '-') → cs.head? = some (cu '-')) :
    (c == cu '-' && cs'.head? == some (cu '-')) = false := by
  rw [Bool.and_eq_false_iff]
  by_contra hboth
  simp only [not_or, Bool.not_eq_false, beq_iff_eq] at hboth
  obtain ⟨ds, rfl⟩ := List.head?_eq_some_iff.mp (hcs hboth.2)
  rw [hboth.1] at h
  cases h

theorem goes_isIdentCont : Goes isIdentCont := by
  refine ⟨fun d hd => ?_, by decide, by decide, by decide⟩
  rw [← Bool.not_eq_true]
  intro hc
  simp only [isBlank, isIdentCont, isIdentStart, isLetter, isDigit, Bool.or_eq_true,
    Bool.and_eq_true, decide_eq_true_eq, beq_iff_eq, ← UInt16.toNat_inj, UInt16.le_iff_toNat_le,
    UInt16.reduceToNat, cu, Char.reduceToNat, Nat.toUInt16_eq, UInt16.reduceOfNat] at hd hc
  omega

namespace MySql

theorem goesOn (s : Unit) (c : CodeUnit) (m v v' : JsString) (hv : v ≠ []) (h : Alike v v')
    (hline : lineComment (c :: (m ++ v)) = none) :
    Same m.length (MySql.next s c (m ++ v)) (MySql.next s c (m ++ v')) := by
  have hm := h.append m
  have hquoted : ∀ escapes, c ≠ cu ' ' → quotedLength c escapes (m ++ v) = m.length →
      quotedLength c escapes (m ++ v') = m.length := fun escapes hc =>
    quotedLength_append hv (h.head_of hc)
  have hdash := dashes_iff hline (fun hd => hd)
  have hdash' := dashes_iff hline (hm.head_of (by decide))
  unfold MySql.next
  refine Same.ite Iff.rfl (fun _ => Same.refl _) fun hblank => ?_
  have hspace : c ≠ cu ' ' := by
    rintro rfl
    exact hblank (by decide)
  refine Same.ite Iff.rfl (fun _ => Same.more (hquoted true hspace)) fun _ => ?_
  refine Same.ite Iff.rfl (fun _ => Same.more (hquoted false hspace)) fun _ => ?_
  refine Same.ite Iff.rfl (fun _ => Same.comment) fun _ => ?_
  rw [hdash, hdash', Bool.false_and, Bool.false_and]
  refine Same.ite Iff.rfl (fun _ => Same.comment) fun _ => ?_
  rw [hm.head_eq (d := cu '*') (by decide)]
  refine Same.ite Iff.rfl (fun _ => ?_) fun _ => ?_
  · intro hkind hmore
    by_cases hversion : (((m ++ v).drop 1).head? == some (cu '!')) = true
    · rw [if_pos hversion] at hmore ⊢
      obtain ⟨a, b, rfl⟩ := length_eq_two.mp hmore.symm
      exact if_pos hversion
    · rw [if_neg hversion] at hkind
      exact absurd rfl hkind
  refine Same.ite Iff.rfl (fun _ => Same.refl _) fun _ => ?_
  refine Same.ite Iff.rfl (fun _ => ?_) fun _ => ?_
  · rw [hm.head_eq (d := cu 'g') (by decide), hm.head_eq (d := cu 'G') (by decide)]
    exact Same.refl _
  refine Same.ite Iff.rfl (fun _ => ?_) fun _ => Same.refl _
  rw [wordLength_takeWhile c (m ++ v'), hm.takeWhile_eq goes_isIdentCont,
    ← wordLength_takeWhile c (m ++ v)]
  exact Same.refl _

theorem isBlank_of_kind {s : Unit} (h : (MySql.next s c cs).kind = .blank) : isBlank c = true := by
  by_contra hc
  unfold MySql.next at h
  rw [if_neg hc] at h
  split_ifs at h

theorem dialect : Dialect MySql.next () where
  space _ _ := rfl
  blank s c cs cs' hkind := by
    have hc := isBlank_of_kind hkind
    exact ⟨hc, by simp [MySql.next, hc], by simp [MySql.next, hc]⟩
  idle _ _ _ := rfl
  goesOn := goesOn

end MySql

namespace Psql

theorem goes_tag : Goes fun c => isIdentStart c || isDigit c := by
  refine ⟨fun d hd => ?_, by decide, by decide, by decide⟩
  have hcont := goes_isIdentCont.1 d hd
  rw [isIdentCont, Bool.or_eq_false_iff] at hcont
  exact hcont.1

theorem dollarTag_alike (h : Alike cs cs') : Psql.dollarTag cs' = Psql.dollarTag cs := by
  have hdrop : ∀ t : JsString, t.drop (t.takeWhile fun c => isIdentStart c || isDigit c).length =
      t.dropWhile fun c => isIdentStart c || isDigit c := by
    intro t
    have hsplit : t.takeWhile (fun c => isIdentStart c || isDigit c) ++
        t.dropWhile (fun c => isIdentStart c || isDigit c) = t := takeWhile_append_dropWhile
    have hdrop : (t.takeWhile (fun c => isIdentStart c || isDigit c) ++
        t.dropWhile (fun c => isIdentStart c || isDigit c)).drop _ = _ := drop_left
    rwa [hsplit] at hdrop
  have htag := h.takeWhile_eq goes_tag
  have hrest := (h.dropWhile goes_tag).head_eq (d := cu '$') (by decide)
  rw [← hdrop, ← hdrop] at hrest
  simp only [Psql.dollarTag]
  rw [htag] at hrest ⊢
  rw [hrest]

theorem dollarLength_append {tag : JsString} (hv : v ≠ [])
    (h : Psql.dollarLength tag (m ++ v) = m.length) :
    Psql.dollarLength tag (m ++ v') = m.length := by
  have hpos : 0 < v.length := length_pos_iff.mpr hv
  have hlen : (m ++ v).length = m.length + v.length := length_append
  rw [Psql.dollarLength] at h
  split at h
  · rename_i i hi
    have hbody : ∀ t : JsString, (m ++ t).drop (tag.length + 1) = m.drop (tag.length + 1) ++ t :=
      fun t => drop_append_of_le_length (by omega)
    rw [hbody] at hi
    have hfound := indexOf_append hi (by rw [length_drop]; omega) (by simp) v'
    rw [Psql.dollarLength, hbody]
    simp only [hfound]
    exact h
  · -- a quote that is not closed would go on to the end
    rw [length_drop, hlen] at h
    omega

/-- What a command reaches up to, the end of the line, is the same. -/
theorem lineLength_append (h : Alike v v')
    (hm : Psql.lineLength (m ++ v) = m.length) : Psql.lineLength (m ++ v') = m.length := by
  refine runLength_append (fun hstop => ?_) hm
  rcases h.head_cases with he | ⟨rfl, -⟩ | ⟨-, hv⟩
  · cases v' with
    | nil => rfl
    | cons d v' =>
      obtain ⟨ds, rfl⟩ := List.head?_eq_some_iff.mp he.symm
      have hd := head_of_takeWhile_eq_nil hstop
      exact takeWhile_cons_of_neg (by simpa using hd)
  · rfl
  · rcases hv with hv | hv <;> obtain ⟨ds, rfl⟩ := List.head?_eq_some_iff.mp hv
    · exact absurd (head_of_takeWhile_eq_nil hstop) (by decide)
    · exact absurd (head_of_takeWhile_eq_nil hstop) (by decide)

theorem goesOn (s : Psql.State) (c : CodeUnit) (m v v' : JsString) (hv : v ≠ []) (h : Alike v v')
    (hline : lineComment (c :: (m ++ v)) = none) :
    Same m.length (Psql.next s c (m ++ v)) (Psql.next s c (m ++ v')) := by
  have hm := h.append m
  have hquoted : ∀ escapes, c ≠ cu ' ' → quotedLength c escapes (m ++ v) = m.length →
      quotedLength c escapes (m ++ v') = m.length := fun escapes hc =>
    quotedLength_append hv (h.head_of hc)
  unfold Psql.next
  refine Same.ite Iff.rfl (fun _ => Same.refl _) fun hblank => ?_
  have hspace : c ≠ cu ' ' := by
    rintro rfl
    exact hblank (by decide)
  rw [dashes_iff hline (fun hd => hd), dashes_iff hline (hm.head_of (by decide))]
  refine Same.ite Iff.rfl (fun _ => Same.comment) fun _ => ?_
  rw [hm.head_eq (d := cu '*') (by decide)]
  refine Same.ite Iff.rfl (fun _ => Same.comment) fun _ => ?_
  refine Same.ite Iff.rfl (fun _ => ?_) fun _ => ?_
  · exact Same.ite Iff.rfl (fun _ => Same.more (hquoted true hspace))
      fun _ => Same.more (hquoted false hspace)
  rw [hm.head_eq (d := cu '\'') (by decide)]
  refine Same.ite Iff.rfl (fun hescape => Same.more fun hmore => ?_) fun _ => ?_
  · -- the quote behind the `e` belongs to the token
    cases m with
    | nil =>
      rw [length_nil] at hmore
      omega
    | cons d m =>
      rw [length_cons, cons_append, drop_succ_cons, drop_zero] at hmore
      rw [length_cons, cons_append, drop_succ_cons, drop_zero,
        quotedLength_append hv (h.head_of (by decide)) (by omega)]
      omega
  refine Same.ite Iff.rfl (fun _ => Same.more (hquoted false hspace)) fun _ => ?_
  refine Same.ite Iff.rfl (fun _ => ?_) fun _ => ?_
  · rw [dollarTag_alike hm]
    cases Psql.dollarTag (m ++ v) with
    | none => exact Same.refl _
    | some tag => exact Same.more (dollarLength_append hv)
  refine Same.ite Iff.rfl (fun _ => ?_) fun _ => ?_
  · by_cases hsemi : ((m ++ v).head? == some (cu ';')) = true
    · rw [if_pos hsemi]
      intro _ hmore
      obtain ⟨d, rfl⟩ := length_eq_one_iff.mp hmore.symm
      exact if_pos hsemi
    · have hsemi' : ¬((m ++ v').head? == some (cu ';')) = true := fun he =>
        hsemi (beq_iff_eq.mpr (hm.head_of (by decide) (beq_iff_eq.mp he)))
      rw [if_neg hsemi, if_neg hsemi', hm.head_eq (d := cu ':') (by decide)]
      exact Same.ite Iff.rfl (fun _ => Same.refl _) fun _ => Same.more (lineLength_append h)
  refine Same.ite Iff.rfl (fun _ => Same.refl _) fun _ => ?_
  refine Same.ite Iff.rfl (fun _ => Same.refl _) fun _ => ?_
  refine Same.ite Iff.rfl (fun _ => Same.refl _) fun _ => ?_
  refine Same.ite Iff.rfl (fun _ => ?_) fun _ => Same.refl _
  rw [wordLength_takeWhile c (m ++ v'), hm.takeWhile_eq goes_isIdentCont,
    ← wordLength_takeWhile c (m ++ v)]
  exact Same.refl _

theorem isBlank_of_kind {s : Psql.State}
    (h : (Psql.next s c cs).kind = .blank) : isBlank c = true := by
  have hrule := Psql.next_rule (P := fun k _ => k = .blank → isBlank c = true ∨ c = cu '$') s c cs
    (fun h _ => .inl h) (fun _ _ hk => by cases hk) (fun _ _ hk => by cases hk)
    (fun _ _ hk => by cases hk) (fun _ hk => by cases hk) (fun _ _ _ hc _ => .inr hc)
    (fun _ _ hk => by cases hk) (fun _ _ hk => by cases hk) (fun _ _ _ hk => by cases hk)
    (fun k hk _ hb => by rcases hk with rfl | rfl <;> cases hb) (fun _ hk => by cases hk)
    (fun _ _ _ hk => by cases hk)
  rcases hrule h with hc | rfl
  · exact hc
  · have hblank : isBlank (cu '$') = false := by decide
    have hother : cu '$' ≠ cu '-' ∧ cu '$' ≠ cu '/' ∧ cu '$' ≠ cu '\'' ∧ cu '$' ≠ cu 'e' ∧
        cu '$' ≠ cu 'E' ∧ cu '$' ≠ cu '"' := by
      decide
    cases htag : Psql.dollarTag cs with
    | none => simp [Psql.next, htag, hblank, hother] at h
    | some tag => simp [Psql.next, htag, hblank, hother] at h

theorem dialect : Dialect Psql.next Psql.start where
  space s _ := by
    have hspace : s.overBlank (cu ' ') = s := if_neg fun h => by
      rcases h.2 with h | h <;> exact absurd h (by decide)
    show (⟨.blank, 0, s.overBlank (cu ' ')⟩ : Lexeme SqlKind Psql.State) = _
    rw [hspace]
  blank s c cs cs' hkind := by
    have hc := isBlank_of_kind hkind
    exact ⟨hc, by simp [Psql.next, hc], by simp [Psql.next, hc]⟩
  idle c cs hkind := by
    have hc := isBlank_of_kind hkind
    simp [Psql.next, hc, Psql.State.overBlank, Psql.start]
  goesOn := goesOn

end Psql

/-! ## Reading what is bare -/

def isComment (kind : SqlKind) : Bool := kind = .comment

variable {y : SqlToken}

/-- What the patterns find begins as they do. -/
theorem head_of_seen {rest : JsString} (hne : y.text ≠ []) (hkind : y.kind = .comment)
    (h : Seen y rest) : y.text.head? = some (cu '/') ∨ y.text.head? = some (cu '-') := by
  obtain ⟨c, cs, hy⟩ := List.exists_cons_of_ne_nil hne
  rw [Seen, if_pos hkind] at h
  rw [hy, List.head?_cons]
  by_contra hc
  rw [not_or, Option.some_inj, Option.some_inj] at hc
  rcases h with h | ⟨h, -⟩
  · rw [Covers, hy, List.cons_append, blockComment_of_ne hc.1] at h
    cases h
  · rw [Covers, hy, List.cons_append, lineComment_of_ne hc.2] at h
    cases h

theorem bare_cons (y : SqlToken) (ys : List SqlToken) :
    bare (y :: ys) = (if y.kind = .comment then js " " else y.text) ++ bare ys := rfl

variable {rest core : List SqlToken}

/-- Tokens and what is left of them go on alike. -/
theorem alike_bare (hne : ∀ y ∈ core, y.text ≠ []) (hseen : AllSeen (core ++ rest))
    (hstops : EndsToken (text rest)) : Alike (text (core ++ rest)) (bare core) := by
  induction core with
  | nil => exact ⟨[], text rest, [], rfl, rfl, hstops, .inl rfl⟩
  | cons y core ih =>
    have hy := hne y mem_cons_self
    rw [cons_append, text_cons, bare_cons]
    by_cases hkind : y.kind = .comment
    · have hhead := head_of_seen hy hkind hseen.1
      obtain ⟨c, cs, htext⟩ := exists_cons_of_ne_nil hy
      rw [htext] at hhead ⊢
      rw [if_pos hkind]
      refine ⟨[], _, _, rfl, rfl, fun d hd => ?_, .inr ⟨hhead, rfl⟩⟩
      obtain rfl : c = d := some.inj hd
      rcases hhead with h | h
      · exact .inr (.inl (some.inj h))
      · exact .inr (.inr (.inl (some.inj h)))
    · rw [if_neg hkind]
      exact (ih (fun z hz => hne z (mem_cons_of_mem y hz)) hseen.2).append y.text

theorem take_drop_of_end {α : Type} {cs b : List α} (h : cs.drop n = [] → b = []) :
    (cs.take n ++ b).take n = cs.take n ∧ (cs.take n ++ b).drop n = b := by
  by_cases hn : n ≤ cs.length
  · have hlen : (cs.take n).length = n := length_take_of_le hn
    exact ⟨take_left' hlen, drop_left' hlen⟩
  · have hle : cs.length ≤ n := by omega
    rw [h (drop_eq_nil_of_le hle), append_nil, take_of_length_le hle]
    exact ⟨take_of_length_le hle, drop_eq_nil_of_le hle⟩

variable {start : σ} {L : Lexer CodeUnit σ SqlKind}

/-- A token that is no comment is the same where the text goes on alike behind it. -/
theorem reads_alike (hL : Dialect L start) {rest : JsString} (hcomment : (L s c cs).kind ≠ .comment)
    (hseen : Seen y rest) (hy : y = ⟨(L s c cs).kind, c :: cs.take (L s c cs).more⟩)
    (hrest : rest = cs.drop (L s c cs).more) (halike : Alike (cs.drop (L s c cs).more) b)
    (hend : cs.drop (L s c cs).more = [] → b = []) :
    L s c (cs.take (L s c cs).more ++ b) = L s c cs := by
  have hcs : cs.take (L s c cs).more ++ cs.drop (L s c cs).more = cs := take_append_drop _ _
  by_cases hnil : cs.drop (L s c cs).more = []
  · rw [hend hnil, ← hnil, hcs]
  · have hlen : (L s c cs).more = (cs.take (L s c cs).more).length := by
      have hlt : (L s c cs).more < cs.length := by
        by_contra hle
        exact hnil (drop_eq_nil_of_le (by omega))
      rw [length_take_of_le hlt.le]
    have hline : lineComment (c :: cs) = none := by
      rw [Seen, if_neg (by rw [hy]; exact hcomment)] at hseen
      have hnone := untouched_suffix hseen.2 (x := y.text) (by rw [hy]; simp) (suffix_refl _)
      rwa [hrest, hy, cons_append, hcs] at hnone
    have hsame := hL.goesOn s c _ _ b hnil halike (by rwa [hcs])
    rw [hcs] at hsame
    exact hsame hcomment hlen

/-- **The tokens are those that were read**, less the comments, if no comment changes how
the text behind it is read. -/
theorem read_bare (hL : Dialect L start) {t : JsString}
    (hread : read (transparent L isComment) s t = core ++ rest) (hseen : AllSeen (core ++ rest))
    (hstops : EndsToken (text rest)) :
    (read (transparent L isComment) s (bare core)).filter (fun y => y.kind ≠ .blank) =
      core.filter isSolid := by
  induction core generalizing s t with
  | nil => rfl
  | cons y core ih =>
    obtain ⟨c, cs, rfl, hy, hts⟩ := read_eq_cons hread
    replace hts : core ++ rest = _ := hts
    have hne : ∀ z ∈ core, z.text ≠ [] := by
      intro z hz
      have hmem : z ∈ core ++ rest := mem_append_left rest hz
      rw [hts] at hmem
      exact text_ne_nil (transparent L isComment) z hmem
    rw [transparent_kind, transparent_more] at hy
    rw [transparent_more] at hts
    have hkind : y.kind = (L s c cs).kind := by rw [hy]
    have ih := ih hts.symm hseen.2
    by_cases hcomment : (L s c cs).kind = .comment
    · -- a blank stands for a comment
      have hp : isComment (L s c cs).kind = true := decide_eq_true hcomment
      have hspace : transparent L isComment s (cu ' ') (bare core) = ⟨.blank, 0, s⟩ := by
        rw [transparent_of_false (by rw [hL.space]; rfl), hL.space]
      rw [transparent_next hp] at ih
      rw [bare_cons, if_pos (hkind.trans hcomment)]
      show (read (transparent L isComment) s (cu ' ' :: bare core)).filter _ = _
      rw [read_cons, hspace, filter_cons_of_neg (by simp),
        filter_cons_of_neg (by simp [isSolid, hkind, hcomment])]
      exact ih
    · have hp : isComment (L s c cs).kind = false := decide_eq_false hcomment
      rw [transparent_of_false hp] at ih hts
      have htext : text (core ++ rest) = cs.drop (L s c cs).more := by rw [hts, text_read]
      have halike := alike_bare hne hseen.2 hstops
      rw [htext] at halike
      have hend : cs.drop (L s c cs).more = [] → bare core = [] := fun hnil => by
        rw [hnil] at htext
        cases core with
        | nil => rfl
        | cons z core =>
          exact absurd (append_eq_nil_iff.mp htext).1 (hne z mem_cons_self)
      have hsame : L s c (cs.take (L s c cs).more ++ bare core) = L s c cs :=
        reads_alike hL hcomment hseen.1 hy htext halike hend
      obtain ⟨htake, hdrop⟩ := take_drop_of_end hend
      have hT : transparent L isComment s c (cs.take (L s c cs).more ++ bare core) = L s c cs := by
        rw [transparent_of_false (by rw [hsame]; exact hp), hsame]
      rw [bare_cons, if_neg (hkind ▸ hcomment), hy]
      show (read (transparent L isComment) s
        (c :: (cs.take (L s c cs).more ++ bare core))).filter _ = _
      rw [read_cons, hT, htake, hdrop]
      by_cases hblank : (L s c cs).kind = .blank
      · rw [filter_cons_of_neg (by simp [hblank]),
          filter_cons_of_neg (by simp [isSolid, hblank])]
        exact ih
      · rw [filter_cons_of_pos (by simpa using hblank),
          filter_cons_of_pos (by simpa [isSolid] using ⟨hblank, hcomment⟩), ih]

end Aoox.SqlRereading
