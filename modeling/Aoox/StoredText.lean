import Aoox.EnvText

/-! # Text as the database keeps it

variable {c : CodeUnit} {text : JsString}

variable {a : JsString}

`encryptSecret` encodes a text as UTF-8 before it encrypts, so what
`decryptSecret` gives back is the text with every lone surrogate replaced by
U+FFFD.  None of the units the line functions look at is a surrogate, so reading
names, values and notes commutes with that round trip (`parseEnvLines_wellFormed`,
`extractNotes_wellFormed`).  What a column of JSON accepts is well formed
already.
-/
open List Bool
namespace Aoox
namespace JsString

/-! ## The UTF-8 round trip -/

def isSurrogate (c : CodeUnit) : Bool := isLeadSurrogate c || isTrailSurrogate c

/-- The units `@MaxLength` counts: two surrogates that belong together are one, and a variation
selector is none. -/
def countedLength (t : JsString) : Nat :=
  let isSelector (c : CodeUnit) : Bool := c = 0xFE0E || c = 0xFE0F
  let pairs := t.zip t.tail
  t.length - pairs.countP (fun p => !isSelector p.1 && isSelector p.2) -
    pairs.countP fun p => isLeadSurrogate p.1 && isTrailSurrogate p.2

/-- A code unit on its own: a surrogate becomes the replacement character. -/
def loneUnit (c : CodeUnit) : CodeUnit := if isSurrogate c then 0xFFFD else c

/-- `Buffer.from(text, 'utf8').toString('utf8')`. -/
def wellFormed : JsString → JsString
  | [] => []
  | [c] => [loneUnit c]
  | c :: d :: cs =>
    if isLeadSurrogate c && isTrailSurrogate d then c :: d :: wellFormed cs
    else loneUnit c :: wellFormed (d :: cs)

attribute [local simp] wellFormed

theorem wellFormed_pair {d : CodeUnit} (hc : isLeadSurrogate c = true)
    (hd : isTrailSurrogate d = true) (cs : JsString) :
    wellFormed (c :: d :: cs) = c :: d :: wellFormed cs := by
  simp [wellFormed, hc, hd]

/-- A unit that is no half of a pair stands on its own. -/
theorem wellFormed_lone {cs : JsString}
    (h : ∀ d, cs.head? = some d → (isLeadSurrogate c && isTrailSurrogate d) = false) :
    wellFormed (c :: cs) = loneUnit c :: wellFormed cs := by
  cases cs with
  | nil => rfl
  | cons d cs => simp [wellFormed, h d rfl]

theorem loneUnit_of_not (h : isSurrogate c = false) : loneUnit c = c := by
  simp [loneUnit, h]

theorem wellFormed_cons (h : isSurrogate c = false) (cs : JsString) :
    wellFormed (c :: cs) = c :: wellFormed cs := by
  have hlead : isLeadSurrogate c = false := by
    simpa using (or_eq_false_iff.mp h).1
  rw [wellFormed_lone (by simp [hlead]), loneUnit_of_not h]

variable {P : JsString → Prop}

/-- The round trip cuts a text into pairs and single units. -/
theorem unit_induction (nil : P [])
    (pair : ∀ c d cs, isLeadSurrogate c = true → isTrailSurrogate d = true → P cs →
      P (c :: d :: cs)) (lone : ∀ c cs, (∀ d, cs.head? = some d →
      (isLeadSurrogate c && isTrailSurrogate d) = false) → P cs → P (c :: cs)) :
    ∀ text, P text
  | [] => nil
  | [c] => lone c [] (by simp) nil
  | c :: d :: cs => by
    by_cases h : (isLeadSurrogate c && isTrailSurrogate d) = true
    · obtain ⟨hc, hd⟩ := and_eq_true_iff.mp h
      exact pair c d cs hc hd (unit_induction nil pair lone cs)
    · refine lone c (d :: cs) (fun x hx => ?_) (unit_induction nil pair lone (d :: cs))
      obtain rfl : d = x := by simpa using hx
      simpa using h

/-- A unit that is no surrogate separates what stands before it from what
stands behind it. -/
theorem wellFormed_append_cons (h : isSurrogate c = false) (a b : JsString) :
    wellFormed (a ++ c :: b) = wellFormed a ++ c :: wellFormed b := by
  induction a using unit_induction with
  | nil => simpa [wellFormed] using wellFormed_cons h b
  | pair x y xs hx hy ih =>
    rw [cons_append, cons_append, wellFormed_pair hx hy, wellFormed_pair hx hy, ih]
    rfl
  | lone x xs hx ih =>
    have hx' : ∀ d, (xs ++ c :: b).head? = some d →
        (isLeadSurrogate x && isTrailSurrogate d) = false := by
      cases xs with
      | nil =>
        intro d hd
        obtain rfl : c = d := by simpa using hd
        have : isTrailSurrogate c = false := by
          simpa using (or_eq_false_iff.mp h).2
        simp [this]
      | cons y ys => simpa using hx
    rw [cons_append, wellFormed_lone hx', wellFormed_lone hx, ih]
    rfl

theorem wellFormed_concat (h : isSurrogate c = false) (a : JsString) :
    wellFormed (a ++ [c]) = wellFormed a ++ [c] := by
  simpa [wellFormed] using wellFormed_append_cons h a []

theorem wellFormed_append (h : wellFormed a = a) (b : JsString) :
    wellFormed (a ++ b) = a ++ wellFormed b := by
  induction a using unit_induction with
  | nil => rfl
  | pair x y xs hx hy ih =>
    rw [wellFormed_pair hx hy] at h
    rw [cons_append, cons_append, wellFormed_pair hx hy, ih (by simpa using h)]
    rfl
  | lone x xs hx ih =>
    rw [wellFormed_lone hx] at h
    obtain ⟨hfix, hxs⟩ := List.cons.inj h
    -- a unit that is its own replacement is no surrogate
    have hsur : isSurrogate x = false := by
      by_contra hne
      rw [loneUnit, if_pos (by simpa using hne)] at hfix
      exact hne (hfix ▸ by decide)
    rw [cons_append, wellFormed_cons hsur, ih hxs]
    rfl

/-- The round trip goes unit by unit. -/
theorem forall₂_wellFormed (text : JsString) :
    Forall₂ (fun a b => b = a ∨ isSurrogate a = true ∧ b = 0xFFFD) text (wellFormed text) := by
  induction text using unit_induction with
  | nil => exact .nil
  | pair c d cs hc hd ih =>
    rw [wellFormed_pair hc hd]
    exact .cons (.inl rfl) (.cons (.inl rfl) ih)
  | lone c cs hc ih =>
    rw [wellFormed_lone hc]
    refine .cons ?_ ih
    by_cases h : isSurrogate c = true
    · exact .inr ⟨h, by simp [loneUnit, h]⟩
    · exact .inl (by simp [loneUnit, h])

theorem isSurrogate_loneUnit (c : CodeUnit) : isSurrogate (loneUnit c) = false := by
  rw [loneUnit]
  split
  · decide
  · rename_i h
    simpa using h

theorem wellFormed_wellFormed (text : JsString) :
    wellFormed (wellFormed text) = wellFormed text := by
  induction text using unit_induction with
  | nil => rfl
  | pair c d cs hc hd ih => rw [wellFormed_pair hc hd, wellFormed_pair hc hd, ih]
  | lone c cs hc ih => rw [wellFormed_lone hc, wellFormed_cons (isSurrogate_loneUnit c), ih]

theorem length_wellFormed (text : JsString) : (wellFormed text).length = text.length :=
  (forall₂_wellFormed text).length_eq.symm

@[simp] theorem wellFormed_eq_nil : wellFormed text = [] ↔ text = [] := by
  rw [← length_eq_zero_iff, length_wellFormed, length_eq_zero_iff]

/-- A class of units without surrogates and without the replacement character:
the round trip neither adds nor takes away a unit of it. -/
def Plain (p : CodeUnit → Bool) : Prop :=
  p 0xFFFD = false ∧ ∀ c, isSurrogate c = true → p c = false

variable {p : CodeUnit → Bool}

theorem Plain.eq (hp : Plain p) (hc : isSurrogate c = true) : p c = p 0xFFFD := by
  rw [hp.1, hp.2 c hc]

theorem plain_eq (d : CodeUnit) (hd : isSurrogate d = false) (hne : (0xFFFD : CodeUnit) ≠ d) :
    Plain (fun c => c == d) := by
  refine ⟨by simpa using hne, fun c hc => ?_⟩
  have hcd : c ≠ d := fun e => absurd (e ▸ hc) (by simp [hd])
  simpa using hcd

theorem Plain.or {q : CodeUnit → Bool} (hp : Plain p) (hq : Plain q) :
    Plain (fun c => p c || q c) :=
  ⟨by simp [hp.1, hq.1], fun c hc => by simp [hp.2 c hc, hq.2 c hc]⟩

theorem plain_range (lo hi : CodeUnit) (h : hi.toNat < 0xD800) :
    Plain (fun c => lo ≤ c && c ≤ hi) := by
  have key : ∀ c : CodeUnit, 0xD800 ≤ c.toNat → (lo ≤ c && c ≤ hi) = false := by
    intro c hc
    have : ¬ c ≤ hi := by
      rw [UInt16.le_iff_toNat_le]
      omega
    simp [this]
  refine ⟨key _ (by decide), fun c hc => key c ?_⟩
  simp only [isSurrogate, isLeadSurrogate, isTrailSurrogate, or_eq_true, and_eq_true,
    decide_eq_true_eq, UInt16.le_iff_toNat_le, UInt16.reduceToNat] at hc
  omega

theorem head?_wellFormed (hp : Plain p) (text : JsString) :
    (wellFormed text).head?.map p = text.head?.map p := by
  have h := forall₂_wellFormed text
  generalize wellFormed text = u at h ⊢
  cases h with
  | nil => rfl
  | cons h _ =>
    rcases h with rfl | ⟨hs, rfl⟩
    · rfl
    · simp [hp.eq hs]

theorem getLast?_wellFormed (hp : Plain p) (text : JsString) :
    (wellFormed text).getLast?.map p = text.getLast?.map p := by
  have h := rel_reverse (forall₂_wellFormed text)
  rw [← List.head?_reverse, ← List.head?_reverse]
  generalize (wellFormed text).reverse = u, text.reverse = t at h ⊢
  cases h with
  | nil => rfl
  | cons h _ =>
    rcases h with rfl | ⟨hs, rfl⟩
    · rfl
    · simp [hp.eq hs]

theorem all_take_wellFormed (hp : Plain p) (n : Nat) (text : JsString) :
    ((wellFormed text).take n).all p = (text.take n).all p := by
  have h := forall₂_wellFormed text
  generalize wellFormed text = u at h ⊢
  induction h generalizing n with
  | nil => rfl
  | cons hab _ ih =>
    cases n with
    | zero => rfl
    | succ n =>
      rcases hab with rfl | ⟨hs, rfl⟩
      · simp [ih]
      · simp [ih, hp.eq hs]

theorem all_wellFormed (hp : Plain p) (text : JsString) : (wellFormed text).all p = text.all p := by
  have h := all_take_wellFormed hp text.length text
  rwa [take_length, take_of_length_le (length_wellFormed text).le] at h

theorem wellFormed_eq_self (h : ∀ c ∈ text, isSurrogate c = false) : wellFormed text = text := by
  induction text with
  | nil => rfl
  | cons c cs ih =>
    rw [wellFormed_cons (h c mem_cons_self), ih fun d hd => h d (mem_cons_of_mem _ hd)]

theorem mem_wellFormed (hc : isSurrogate c = false) (hne : c ≠ 0xFFFD)
    (text : JsString) : c ∈ wellFormed text ↔ c ∈ text := by
  have h := forall₂_wellFormed text
  generalize wellFormed text = u at h ⊢
  induction h with
  | nil => simp
  | @cons a b as bs hab _ ih =>
    rcases hab with rfl | ⟨ha, rfl⟩
    · simp [ih]
    · have : c ≠ a := fun e => by simp [e, ha] at hc
      simp [ih, hne, this]

/-! ## White space, lines and names -/

theorem isSurrogate_of_isSpace (h : isSpace c = true) : isSurrogate c = false := by
  simp only [isSpace, isSurrogate, isLeadSurrogate, isTrailSurrogate] at h ⊢
  simp only [or_eq_true, and_eq_true, decide_eq_true_eq, beq_iff_eq,
    or_eq_false_iff, and_eq_false_iff, decide_eq_false_iff_not,
    UInt16.le_iff_toNat_le, ← UInt16.toNat_inj] at h ⊢
  simp only [UInt16.reduceToNat] at h ⊢
  omega

theorem plain_isSpace : Plain isSpace := by
  refine ⟨by decide, fun c hc => ?_⟩
  by_contra h
  rw [isSurrogate_of_isSpace (by simpa using h)] at hc
  cases hc

theorem dropWhile_wellFormed (hp : Plain p) (text : JsString) :
    (wellFormed text).dropWhile p = wellFormed (text.dropWhile p) := by
  induction text with
  | nil => rfl
  | cons c cs ih =>
    by_cases hc : p c = true
    · have hsur : isSurrogate c = false := by
        by_contra h
        rw [hp.2 c (by simpa using h)] at hc
        cases hc
      rw [wellFormed_cons hsur]
      simpa [hc] using ih
    · have hhead := head?_wellFormed hp (c :: cs)
      rw [dropWhile_cons_of_neg (by simpa using hc)]
      cases hw : wellFormed (c :: cs) with
      | nil => rfl
      | cons d ds =>
        have hd : p d = false := by
          rw [hw] at hhead
          simpa [hc] using hhead
        rw [dropWhile_cons_of_neg (by simp [hd])]

theorem trimStart_wellFormed (text : JsString) :
    trimStart (wellFormed text) = wellFormed (trimStart text) :=
  dropWhile_wellFormed plain_isSpace text

theorem trimEnd_wellFormed (text : JsString) :
    trimEnd (wellFormed text) = wellFormed (trimEnd text) := by
  induction text using reverseRecOn with
  | nil => rfl
  | append_singleton cs c ih =>
    by_cases hc : isSpace c = true
    · rw [wellFormed_concat (isSurrogate_of_isSpace hc)]
      simp only [trimEnd, rdropWhile_concat, hc, if_true]
      exact ih
    · have hlast := getLast?_wellFormed plain_isSpace (cs ++ [c])
      rw [trimEnd, trimEnd, rdropWhile_concat_neg _ _ _ (by simpa using hc)]
      refine rdropWhile_eq_self_iff.mpr (fun hne => ?_)
      rw [getLast?_eq_getLast_of_ne_nil hne] at hlast
      simpa [hc] using hlast

theorem trim_wellFormed (text : JsString) : trim (wellFormed text) = wellFormed (trim text) := by
  rw [trim, trim, trimStart_wellFormed, trimEnd_wellFormed]

/-- The line in front of a newline: one carriage return belongs to the newline. -/
def dropCr (line : JsString) : JsString :=
  if line.getLast? = some (cu '\r') then line.dropLast else line

theorem splitLines_of_not_mem {p : JsString} (h : cu '\n' ∉ p) : splitLines p = [p] := by
  fun_induction splitLines p with
  | case1 => rfl
  | case2 => exact absurd (by simp) h
  | case3 c hc => rfl
  | case4 d cs ih => exact absurd (by simp) h
  | case5 c d cs hc hcr ih => exact absurd (by simp [hcr.2]) h
  | case6 c d cs hc hcr ih =>
    rw [ih (fun hm => h (mem_cons_of_mem _ hm))]
    rfl

theorem splitLines_append {p : JsString} (h : cu '\n' ∉ p) (rest : JsString) :
    splitLines (p ++ cu '\n' :: rest) = dropCr p :: splitLines rest := by
  induction p with
  | nil => cases rest <;> simp [splitLines, dropCr]
  | cons c cs ih =>
    have hc : c ≠ cu '\n' := fun e => h (by simp [e])
    have ih := ih (fun hm => h (mem_cons_of_mem _ hm))
    cases cs with
    | nil =>
      by_cases hcr : c = cu '\r'
      · simp [splitLines, dropCr, hcr, show cu '\r' ≠ cu '\n' by decide]
      · rw [nil_append] at ih
        simp [splitLines, dropCr, hc, hcr, ih, consFirst]
    | cons d ds =>
      have hd : d ≠ cu '\n' := fun e => h (by simp [e])
      rw [cons_append, cons_append, splitLines, if_neg hc, if_neg (by simp [hd]),
        ← cons_append, ih]
      simp only [consFirst, dropCr, getLast?_cons_cons]
      split <;> simp

/-- A text is one line, or a line, a newline and a text. -/
theorem lines_induction (last : ∀ p, cu '\n' ∉ p → P p)
    (line : ∀ p rest, cu '\n' ∉ p → P rest → P (p ++ cu '\n' :: rest)) (text : JsString) :
    P text := by
  induction hn : text.length using Nat.strong_induction_on generalizing text with
  | _ n ih =>
    by_cases h : cu '\n' ∈ text
    · obtain ⟨p, rest, rfl, hp⟩ := eq_append_cons_of_mem h
      refine line p rest hp (ih rest.length ?_ rest rfl)
      rw [← hn, length_append, length_cons]
      omega
    · exact last text h

theorem dropCr_wellFormed (p : JsString) : dropCr (wellFormed p) = wellFormed (dropCr p) := by
  induction p using reverseRecOn with
  | nil => rfl
  | append_singleton cs c _ =>
    by_cases hc : c = cu '\r'
    · subst hc
      rw [wellFormed_concat (by decide)]
      simp [dropCr]
    · have hlast := getLast?_wellFormed (plain_eq (cu '\r') (by decide) (by decide)) (cs ++ [c])
      have hne : (wellFormed (cs ++ [c])).getLast? ≠ some (cu '\r') := by
        intro e
        rw [e] at hlast
        exact hc (by simpa using hlast)
      rw [dropCr, if_neg hne, dropCr, if_neg (by simpa using hc)]

theorem splitLines_wellFormed (text : JsString) :
    splitLines (wellFormed text) = (splitLines text).map wellFormed := by
  have hnl := mem_wellFormed (c := cu '\n') (by decide) (by decide)
  induction text using lines_induction with
  | last p hp =>
    rw [splitLines_of_not_mem hp, splitLines_of_not_mem (fun h => hp ((hnl p).mp h))]
    rfl
  | line p rest hp ih =>
    rw [wellFormed_append_cons (by decide), splitLines_append hp,
      splitLines_append (fun h => hp ((hnl p).mp h)), ih, dropCr_wellFormed]
    rfl

theorem trim_concat_space (hc : isSpace c = true) (p : JsString) : trim (p ++ [c]) = trim p := by
  rw [trim, trim, trimStart, trimStart, dropWhile_append]
  split
  · rename_i h
    rw [List.isEmpty_iff.mp h]
    simp [hc, trimEnd]
  · rw [trimEnd, rdropWhile_concat_pos _ _ _ hc]
    rfl

theorem trim_dropCr (p : JsString) : trim (dropCr p) = trim p := by
  induction p using reverseRecOn with
  | nil => rfl
  | append_singleton cs c _ =>
    by_cases hc : c = cu '\r'
    · subst hc
      have hcs : dropCr (cs ++ [cu '\r']) = cs := by simp [dropCr]
      rw [hcs, trim_concat_space (by decide)]
    · rw [dropCr, if_neg (by simpa using hc)]

theorem join_wellFormed (hc : isSurrogate c = false) (pieces : List JsString) :
    join (pieces.map wellFormed) [c] = wellFormed (join pieces [c]) := by
  induction pieces with
  | nil => rfl
  | cons p ps ih =>
    cases ps with
    | nil => simp [join]
    | cons q qs =>
      simp only [join, map_cons, intercalate_cons_cons, append_assoc, singleton_append] at ih ⊢
      rw [wellFormed_append_cons hc, ih]

theorem indexOf_unit {p : JsString} (h : c ∉ p) (rest : JsString) :
    indexOf [c] (p ++ c :: rest) 0 = some p.length := by
  induction p with
  | nil => simp [indexOf]
  | cons d ds ih =>
    have hcd : c ≠ d := fun e => h (by simp [e])
    rw [cons_append, indexOf, if_neg (by simpa using hcd),
      ih fun hm => h (mem_cons_of_mem _ hm)]
    rfl

theorem indexOf_unit_eq_none {p : JsString} (h : c ∉ p) : indexOf [c] p 0 = none := by
  induction p with
  | nil => rfl
  | cons d ds ih =>
    have hcd : c ≠ d := fun e => h (by simp [e])
    rw [indexOf, if_neg (by simpa using hcd), ih fun hm => h (mem_cons_of_mem _ hm)]
    rfl

theorem startsWith_unit (c : CodeUnit) (text : JsString) :
    startsWith text [c] = (text.head?.map (· == c) == some true) := by
  cases text with
  | nil => simp [startsWith]
  | cons d ds =>
    by_cases h : c = d
    · simp [startsWith, h]
    · simp [startsWith, h, Ne.symm h]

end JsString

/-! ## Variables -/

open JsString

theorem assignment_append (h : cu '=' ∉ a) (b : JsString) :
    assignment (a ++ cu '=' :: b) = if a = [] then none else some (trim a, b) := by
  rw [assignment, indexOf_unit h]
  cases a with
  | nil => rfl
  | cons c cs =>
    have htake : (c :: cs ++ cu '=' :: b).take (cs.length + 1) = c :: cs := take_left' (by simp)
    have hdrop : (c :: cs ++ cu '=' :: b).drop (cs.length + 2) = b := by
      rw [append_cons]
      exact drop_left' (by simp)
    simp only [length_cons, sliceTo, sliceFrom, htake, hdrop, reduceCtorEq, if_false]

variable {line : JsString}

theorem assignment_eq_none (h : cu '=' ∉ line) : assignment line = none := by
  rw [assignment, indexOf_unit_eq_none h]

theorem assignment_wellFormed (line : JsString) :
    assignment (wellFormed line) = (assignment line).map (Prod.map wellFormed wellFormed) := by
  have heq := mem_wellFormed (c := cu '=') (by decide) (by decide)
  by_cases h : cu '=' ∈ line
  · obtain ⟨a, b, rfl, ha⟩ := eq_append_cons_of_mem h
    rw [wellFormed_append_cons (by decide), assignment_append ha,
      assignment_append fun hm => ha ((heq a).mp hm)]
    by_cases hnil : a = []
    · simp [hnil]
    · simp [hnil, trim_wellFormed]
  · rw [assignment_eq_none h, assignment_eq_none fun hm => h ((heq line).mp hm)]
    rfl

theorem startsWith_hash_wellFormed (line : JsString) :
    startsWith (wellFormed line) [cu '#'] = startsWith line [cu '#'] := by
  rw [startsWith_unit, startsWith_unit,
    head?_wellFormed (plain_eq (cu '#') (by decide) (by decide))]

theorem isSkipped_wellFormed (line : JsString) : isSkipped (wellFormed line) = isSkipped line := by
  simp [isSkipped, startsWith_hash_wellFormed]

theorem parseLine_wellFormed (raw : JsString) :
    parseLine (wellFormed raw) = (parseLine raw).map (Prod.map wellFormed wellFormed) := by
  rw [parseLine, parseLine, trim_wellFormed, isSkipped_wellFormed, assignment_wellFormed]
  split <;> rfl

/-- **Reading the variables commutes with the round trip.** -/
theorem parseEnvLines_wellFormed (text : JsString) : parseEnvLines (wellFormed text) =
      (parseEnvLines text).map (Prod.map wellFormed wellFormed) := by
  rw [parseEnvLines, parseEnvLines, splitLines_wellFormed, filterMap_map, map_filterMap]
  exact filterMap_congr fun raw _ => parseLine_wellFormed raw

theorem keysOf_wellFormed (h : ∀ k ∈ keysOf text, wellFormed k = k) :
    keysOf (wellFormed text) = keysOf text := by
  rw [keysOf, keysOf, parseEnvLines_wellFormed, map_map]
  congr 1
  refine map_congr_left fun e he => h e.1 ?_
  rw [keysOf, mem_eraseDups]
  exact mem_map_of_mem he

/-! ## Notes -/

theorem plain_isLetter : Plain isLetter :=
  (plain_range _ _ (by decide)).or (plain_range _ _ (by decide))

theorem plain_nameStart : Plain (fun c => isLetter c || c == cu '_') :=
  plain_isLetter.or (plain_eq _ (by decide) (by decide))

theorem plain_nameRest : Plain (fun c => isLetter c || c == cu '_' || isDigit c) :=
  plain_nameStart.or (plain_range _ _ (by decide))

theorem isEnvName_eq (key : JsString) :
    isEnvName key = ((key.head?.map fun c => isLetter c || c == cu '_') == some true &&
      key.all fun c => isLetter c || c == cu '_' || isDigit c) := by
  cases key with
  | nil => rfl
  | cons c cs => cases h : isLetter c || c == cu '_' <;> simp [isEnvName, h]

theorem isEnvName_wellFormed (key : JsString) : isEnvName (wellFormed key) = isEnvName key := by
  rw [isEnvName_eq, isEnvName_eq, head?_wellFormed plain_nameStart, all_wellFormed plain_nameRest]

/-- A name of a variable is plain ASCII. -/
theorem wellFormed_of_isEnvName {key : JsString} (h : isEnvName key = true) :
    wellFormed key = key := by
  rw [isEnvName_eq, and_eq_true_iff] at h
  refine wellFormed_eq_self fun c hc => ?_
  by_contra hsur
  exact absurd (all_eq_true.mp h.2 c hc)
    (eq_false_iff.mp (plain_nameRest.2 c (by simpa using hsur)))

theorem noteLine_wellFormed (h : startsWith line [cu '#'] = true) :
    noteLine (wellFormed line) = wellFormed (noteLine line) := by
  obtain ⟨rest, rfl⟩ : ∃ rest, line = cu '#' :: rest := by
    obtain ⟨rest, hrest⟩ : [cu '#'] <+: line := by simpa [startsWith] using h
    exact ⟨rest, hrest.symm⟩
  rw [wellFormed_cons (by decide)]
  simp only [noteLine, sliceFrom, drop_succ_cons, drop_zero]
  cases rest with
  | nil => rfl
  | cons c cs =>
    by_cases hc : c = cu ' '
    · subst hc
      rw [wellFormed_cons (by decide)]
      simp [trimEnd_wellFormed]
    · have hhead := head?_wellFormed (plain_eq (cu ' ') (by decide) (by decide)) (c :: cs)
      cases hw : wellFormed (c :: cs) with
      | nil => simp at hw
      | cons d ds =>
        have hd : d ≠ cu ' ' := by
          rw [hw] at hhead
          simpa [hc] using hhead
        simp only [hd, hc, if_false]
        rw [← hw, trimEnd_wellFormed]

def noteText (pending : List JsString) : JsString :=
  trimEnd ((join pending (js "\n")).dropWhile (· == cu '\n'))

theorem noteText_wellFormed (pending : List JsString) :
    noteText (pending.map wellFormed) = wellFormed (noteText pending) := by
  have hjoin : join (pending.map wellFormed) (js "\n") = wellFormed (join pending (js "\n")) :=
    join_wellFormed (c := cu '\n') (by decide) pending
  rw [noteText, noteText, ← trimEnd_wellFormed,
    ← dropWhile_wellFormed (plain_eq _ (by decide) (by decide)), hjoin]

/-- One note, cut before and behind the round trip. -/
def CutAlike (note note' : JsString) : Prop :=
  ∃ text, note = trimEnd (sliceTo text NOTE_MAX) ∧
    note' = trimEnd (sliceTo (wellFormed text) NOTE_MAX)

theorem cutAlike_noteOf (pending : List JsString) :
    CutAlike (noteOf pending) (noteOf (pending.map wellFormed)) :=
  ⟨noteText pending, rfl, by rw [← noteText_wellFormed]; rfl⟩

variable {note note' : JsString}

theorem CutAlike.eq_nil (h : CutAlike note note') : note = [] ↔ note' = [] := by
  obtain ⟨text, rfl, rfl⟩ := h
  have hall := all_take_wellFormed plain_isSpace NOTE_MAX text
  rw [trimEnd, trimEnd, rdropWhile_eq_nil_iff, rdropWhile_eq_nil_iff,
    ← all_eq_true, ← all_eq_true, sliceTo, sliceTo, hall]

theorem wellFormed_trimEnd_append (text : JsString) (h : wellFormed (trimEnd text) = trimEnd text) :
    wellFormed text = text := by
  induction text using reverseRecOn with
  | nil => rfl
  | append_singleton cs c ih =>
    by_cases hc : isSpace c = true
    · rw [trimEnd, rdropWhile_concat_pos _ _ _ hc] at h
      rw [wellFormed_concat (isSurrogate_of_isSpace hc), ih h]
    · rwa [trimEnd, rdropWhile_concat_neg _ _ _ hc] at h

theorem CutAlike.eq (h : CutAlike note note') (hwf : wellFormed note = note) : note' = note := by
  obtain ⟨text, rfl, rfl⟩ := h
  have htake := wellFormed_trimEnd_append _ hwf
  have hsplit := wellFormed_append htake (text.drop NOTE_MAX)
  rw [sliceTo, take_append_drop] at hsplit
  have hcut : (wellFormed text).take NOTE_MAX = text.take NOTE_MAX := by
    by_cases hlen : NOTE_MAX ≤ text.length
    · rw [hsplit]
      exact take_left' (by rw [length_take]; omega)
    · rw [hsplit, drop_of_length_le (by omega), wellFormed, append_nil, take_take,
        Nat.min_self]
  rw [sliceTo, sliceTo, hcut]

/-- The scan for notes, before and behind the round trip. -/
structure ScanAlike (s s' : NoteScan) : Prop where
  out : Assoc.Alike CutAlike s.out s'.out
  pending : s'.pending = s.pending.map wellFormed

variable {s s' : NoteScan}

theorem ScanAlike.noteStep (h : ScanAlike s s') (raw : JsString) :
    ScanAlike (noteStep s raw) (noteStep s' (wellFormed raw)) := by
  have hcut : CutAlike (noteOf s.pending) (noteOf s'.pending) := h.pending ▸ cutAlike_noteOf _
  simp only [Aoox.noteStep, trim_wellFormed, wellFormed_eq_nil, startsWith_hash_wellFormed,
    assignment_wellFormed]
  split
  · exact ⟨h.out, rfl⟩
  split
  · rename_i hhash
    exact ⟨h.out, by simp [h.pending, noteLine_wellFormed hhash]⟩
  cases assignment (trim raw) with
  | none => exact ⟨h.out, rfl⟩
  | some e =>
    obtain ⟨key, value⟩ := e
    simp only [Option.map_some, Prod.map, isEnvName_wellFormed, hcut.eq_nil]
    split
    · rename_i hkey
      rw [wellFormed_of_isEnvName hkey]
      split
      · exact ⟨h.out.erase key, rfl⟩
      · refine ⟨?_, rfl⟩
        rw [assign, assign]
        split
        · exact h.out
        · exact h.out.set key hcut
    · exact ⟨h.out, rfl⟩

theorem ScanAlike.foldl (h : ScanAlike s s') (raws : List JsString) :
    ScanAlike (raws.foldl Aoox.noteStep s) ((raws.map wellFormed).foldl Aoox.noteStep s') := by
  induction raws generalizing s s' with
  | nil => exact h
  | cons raw raws ih => exact ih (h.noteStep raw)

theorem dropBom_wellFormed (text : JsString) :
    dropBom (wellFormed text) = wellFormed (dropBom text) := by
  cases text with
  | nil => rfl
  | cons c cs =>
    by_cases hc : c = 0xFEFF
    · subst hc
      rw [wellFormed_cons (by decide)]
      rfl
    · have hhead := head?_wellFormed (plain_eq 0xFEFF (by decide) (by decide)) (c :: cs)
      rw [dropBom, if_neg hc]
      cases hw : wellFormed (c :: cs) with
      | nil => rfl
      | cons d ds =>
        rw [hw] at hhead
        rw [dropBom, if_neg (by simpa [hc] using hhead)]

/-- **Reading the notes commutes with the round trip**, as far as the notes are
well formed. -/
theorem extractNotes_wellFormed (h : ∀ e ∈ extractNotes text, wellFormed e.2 = e.2) :
    extractNotes (wellFormed text) = extractNotes text := by
  have hscan : ScanAlike ⟨[], []⟩ ⟨[], []⟩ := ⟨.nil, rfl⟩
  have hout := (hscan.foldl (splitLines (dropBom text))).out
  rw [extractNotes, dropBom_wellFormed, splitLines_wellFormed]
  exact hout.eq fun e he note hnote => hnote.eq (h e he)

/-! ## Blank texts and line endings -/

theorem trim_eq_nil : trim text = [] ↔ ∀ c ∈ text, isSpace c = true := by
  rw [trim, trimEnd, rdropWhile_eq_nil_iff, trimStart]
  constructor
  · intro h c hc
    rw [← takeWhile_append_dropWhile (p := isSpace) (l := text)] at hc
    rcases mem_append.mp hc with hc | hc
    · exact mem_takeWhile_imp hc
    · exact h c hc
  · exact fun h c hc => h c ((dropWhile_suffix isSpace).subset hc)

theorem dropCr_subset (p : JsString) : dropCr p ⊆ p := by
  rw [dropCr]
  split
  · exact (dropLast_sublist p).subset
  · exact fun _ h => h

theorem subset_of_mem_splitLines (h : line ∈ splitLines text) : line ⊆ text := by
  induction text using lines_induction with
  | last p hp =>
    rw [splitLines_of_not_mem hp, mem_singleton] at h
    exact h ▸ fun _ hc => hc
  | line p rest hp ih =>
    rw [splitLines_append hp, mem_cons] at h
    rcases h with rfl | h
    · exact List.Subset.trans (dropCr_subset p) (subset_append_left _ _)
    · exact List.Subset.trans (ih h)
        (List.Subset.trans (subset_cons_self _ _) (subset_append_right _ _))

theorem trim_line_of_blank (ht : trim text = []) (h : line ∈ splitLines text) : trim line = [] :=
  trim_eq_nil.mpr fun _ hc => trim_eq_nil.mp ht _ (subset_of_mem_splitLines h hc)

theorem parseEnvLines_blank (h : trim text = []) : parseEnvLines text = [] := by
  rw [parseEnvLines, filterMap_eq_nil_iff]
  intro raw hraw
  simp [parseLine, isSkipped, trim_line_of_blank h hraw]

theorem keysOf_blank (h : trim text = []) : keysOf text = [] := by
  simp [keysOf, parseEnvLines_blank h]

theorem foldl_noteStep_blank {raws : List JsString} (h : ∀ raw ∈ raws, trim raw = []) :
    raws.foldl noteStep ⟨[], []⟩ = ⟨[], []⟩ := by
  induction raws with
  | nil => rfl
  | cons raw raws ih =>
    rw [foldl_cons, noteStep, if_pos (h raw mem_cons_self)]
    exact ih fun x hx => h x (mem_cons_of_mem _ hx)

theorem dropBom_subset (text : JsString) : dropBom text ⊆ text := by
  cases text with
  | nil => exact fun _ h => h
  | cons c cs =>
    rw [dropBom]
    split
    · exact subset_cons_self _ _
    · exact fun _ h => h

theorem extractNotes_blank (h : trim text = []) : extractNotes text = [] := by
  have hbom : trim (dropBom text) = [] :=
    trim_eq_nil.mpr fun c hc => trim_eq_nil.mp h c (dropBom_subset text hc)
  rw [extractNotes, foldl_noteStep_blank fun raw hraw => trim_line_of_blank hbom hraw]

/-- `normalizeText`: line endings and trailing blank space do not make a change. -/
def normalizeText (text : JsString) : JsString :=
  trimEnd (Replacing.replaceSublist (js "\r\n") (js "\n") text)

theorem splitLines_ne_nil (text : JsString) : splitLines text ≠ [] := by
  induction text using lines_induction with
  | last p hp => simp [splitLines_of_not_mem hp]
  | line p rest hp _ => simp [splitLines_append hp]

variable {sep : JsString} {ps : List JsString}

theorem join_cons {p : JsString} (h : ps ≠ []) : join (p :: ps) sep = p ++ sep ++ join ps sep := by
  rw [join, intercalate_cons_of_ne_nil h]
  rfl

open Replacing in
/-- Each line with a plain newline behind it. -/
theorem replaceSublist_crlf (text : JsString) :
    replaceSublist (js "\r\n") (js "\n") text = join (splitLines text) (js "\n") := by
  have hmiss : ∀ {c : CodeUnit} {cs : JsString}, ¬ (c = cu '\r' ∧ cs.head? = some (cu '\n')) →
      ¬ js "\r\n" <+: c :: cs := by
    rintro c cs h ⟨rest, hrest⟩
    obtain ⟨rfl, rfl⟩ := List.cons.inj hrest
    exact h ⟨rfl, rfl⟩
  fun_induction splitLines text with
  | case1 => rfl
  | case2 => decide
  | case3 c hc => exact replaceSublist_miss _ (hmiss (by simp))
  | case4 d cs ih =>
    rw [replaceSublist_miss _ (hmiss fun h => absurd h.1 (by decide)), ih,
      join_cons (splitLines_ne_nil _)]
    rfl
  | case5 c d cs hc hcr ih =>
    obtain ⟨rfl, rfl⟩ := hcr
    rw [join_cons (splitLines_ne_nil _), ← ih]
    exact replaceSublist_hit (by decide) _ cs
  | case6 c d cs hc hcr ih =>
    rw [replaceSublist_miss _ (hmiss (by simpa using hcr)), ih,
      join_consFirst _ c (splitLines_ne_nil _)]

theorem mem_join (h : c ∈ join ps sep) : c ∈ sep ∨ ∃ p ∈ ps, c ∈ p := by
  induction ps with
  | nil => cases h
  | cons p ps ih =>
    by_cases hps : ps = []
    · subst hps
      exact .inr ⟨p, by simp, by simpa [join] using h⟩
    · rw [join_cons hps, append_assoc] at h
      rcases mem_append.mp h with h | h
      · exact .inr ⟨p, by simp, h⟩
      rcases mem_append.mp h with h | h
      · exact .inl h
      · rcases ih h with h | ⟨q, hq, hc⟩
        · exact .inl h
        · exact .inr ⟨q, mem_cons_of_mem _ hq, hc⟩

theorem normalizeText_blank (h : trim text = []) : normalizeText text = [] := by
  rw [normalizeText, trimEnd, rdropWhile_eq_nil_iff, replaceSublist_crlf]
  intro c hc
  rcases mem_join hc with hc | ⟨line, hline, hc⟩
  · obtain rfl : c = cu '\n' := by simpa [js, utf16] using hc
    decide
  · exact trim_eq_nil.mp h c (subset_of_mem_splitLines hline hc)

theorem normalizeText_wellFormed (text : JsString) :
    normalizeText (wellFormed text) = wellFormed (normalizeText text) := by
  rw [normalizeText, normalizeText, replaceSublist_crlf, replaceSublist_crlf,
    splitLines_wellFormed, ← trimEnd_wellFormed]
  exact congrArg trimEnd (join_wellFormed (c := cu '\n') (by decide) _)

end Aoox
