import Aoox.ImageTags
import Aoox.Rounding

/-! # Precedence of semantic versions

The specification orders versions by their three numbers, whatever their length,
and then by their pre-release identifiers; a leading `v` and build metadata are no
part of that.  `compareSemver` compares identifiers as digit strings, which for
numbers without leading zeros is the order of the numbers
(`compareIdentifiers_eq`).  The three main numbers go through `Number`, which keeps
their order but not their difference (`toNumber_mono`): from `2 ^ 53` on two
different numbers can be the same double.
-/
open List
namespace Aoox.ImageTags

open JsString Std

/-! ## The specification -/

/-- A version without white space around it, a leading `v` and build metadata. -/
def versionText (input : JsString) : JsString :=
  (cutFirst (cu '+')
    (if startsWith (trim input) [cu 'v'] then (trim input).drop 1 else trim input)).1

def numbersOf (text : JsString) : List Nat :=
  (split (cutFirst (cu '-') text).1 [cu '.']).map digitsValue

def identifiersOf (text : JsString) : List JsString :=
  ((cutFirst (cu '-') text).2.map fun p => split p [cu '.']).getD []

/-- Identifiers of digits are compared numerically and come before all others, which are compared
in the order of their characters. -/
def identifierPrecedence (a b : JsString) : Ordering :=
  if isNumeric a && isNumeric b then compare (digitsValue a) (digitsValue b)
  else if isNumeric a then .lt
  else if isNumeric b then .gt
  else compare a b

/-- The first difference decides; a larger set of identifiers comes behind a smaller one it
continues. -/
def identifiersPrecedence : List JsString → List JsString → Ordering
  | [], [] => .eq
  | [], _ :: _ => .lt
  | _ :: _, [] => .gt
  | a :: as, b :: bs => (identifierPrecedence a b).then (identifiersPrecedence as bs)

/-- A version without pre-release identifiers comes behind those with some. -/
def prereleasePrecedence (a b : List JsString) : Ordering :=
  if a = [] ∧ b = [] then .eq
  else if a = [] then .gt
  else if b = [] then .lt
  else identifiersPrecedence a b

/-- Precedence of two version texts. -/
def precedence (a b : JsString) : Ordering :=
  (compare (numbersOf a) (numbersOf b)).then
    (prereleasePrecedence (identifiersOf a) (identifiersOf b))

/-! ## Digits -/

theorem digitsValue_append (a b : JsString) :
    digitsValue (a ++ b) = digitsValue a * 10 ^ b.length + digitsValue b := by
  induction b using reverseRecOn with
  | nil => simp [digitsValue]
  | append_singleton b c ih =>
    have hsnoc : ∀ x : JsString, digitsValue (x ++ [c]) = 10 * digitsValue x + (c.toNat - 48) := by
      intro x
      rw [digitsValue, foldl_concat]
      rfl
    rw [← append_assoc, hsnoc, hsnoc, ih, length_append, length_singleton, pow_succ]
    ring

theorem digitsValue_cons (c : CodeUnit) (cs : JsString) :
    digitsValue (c :: cs) = (c.toNat - 48) * 10 ^ cs.length + digitsValue cs := by
  have happ := digitsValue_append [c] cs
  have hone : digitsValue [c] = c.toNat - 48 := by simp [digitsValue]
  rwa [hone] at happ

theorem isDigit_bounds {c : CodeUnit} (h : isDigit c = true) : 48 ≤ c.toNat ∧ c.toNat ≤ 57 := by
  simp only [isDigit, Bool.and_eq_true, decide_eq_true_eq, UInt16.le_iff_toNat_le] at h
  exact h

theorem digitsValue_lt {digits : JsString} (h : ∀ c ∈ digits, isDigit c = true) :
    digitsValue digits < 10 ^ digits.length := by
  induction digits with
  | nil => decide
  | cons c cs ih =>
    have hc := isDigit_bounds (h c mem_cons_self)
    have hcs := ih fun x hx => h x (mem_cons_of_mem _ hx)
    rw [digitsValue_cons, length_cons, pow_succ]
    have hle : (c.toNat - 48) * 10 ^ cs.length ≤ 9 * 10 ^ cs.length :=
      Nat.mul_le_mul_right _ (by omega)
    omega

theorem compare_toNat (c d : CodeUnit) : compare c d = compare c.toNat d.toNat := by
  simp only [compare, compareOfLessAndEq, UInt16.lt_iff_toNat_lt, UInt16.toNat_inj]

/-- Two digits and the numbers behind them compare like the whole numbers. -/
theorem compare_digits_cons {c d : CodeUnit} {cs ds : JsString} (hlen : cs.length = ds.length)
    (hc : isDigit c = true) (hd : isDigit d = true) (hcs : ∀ x ∈ cs, isDigit x = true)
    (hds : ∀ x ∈ ds, isDigit x = true) :
    compare (digitsValue (c :: cs)) (digitsValue (d :: ds)) =
      (compare c d).then (compare (digitsValue cs) (digitsValue ds)) := by
  have hcb := isDigit_bounds hc
  have hdb := isDigit_bounds hd
  have hcsv := digitsValue_lt hcs
  have hdsv := digitsValue_lt hds
  rw [digitsValue_cons, digitsValue_cons, ← hlen] at *
  generalize 10 ^ cs.length = p at *
  -- a larger first digit outweighs whatever follows
  have hstep : ∀ m n x y : Nat, m < n → x < p → m * p + x < n * p + y := by
    intro m n x y hmn hx
    have hmul : (m + 1) * p ≤ n * p := Nat.mul_le_mul_right p hmn
    rw [Nat.succ_mul] at hmul
    omega
  rw [compare_toNat]
  rcases Nat.lt_trichotomy c.toNat d.toNat with hlt | heq | hgt
  · rw [Nat.compare_eq_lt.mpr hlt, Nat.compare_eq_lt.mpr (hstep _ _ _ _ (by omega) hcsv)]
    rfl
  · rw [heq, Nat.compare_eq_eq.mpr rfl, Ordering.eq_then]
    rcases Nat.lt_trichotomy (digitsValue cs) (digitsValue ds) with h | h | h
    · rw [Nat.compare_eq_lt.mpr h, Nat.compare_eq_lt.mpr (by omega)]
    · rw [h]
      simp
    · rw [Nat.compare_eq_gt.mpr h, Nat.compare_eq_gt.mpr (by omega)]
  · rw [Nat.compare_eq_gt.mpr hgt, Nat.compare_eq_gt.mpr (hstep _ _ _ _ (by omega) hdsv)]
    rfl

variable {a b : JsString}

theorem compare_digits (hlen : a.length = b.length) (ha : ∀ c ∈ a, isDigit c = true)
    (hb : ∀ c ∈ b, isDigit c = true) : compare (digitsValue a) (digitsValue b) = compare a b := by
  induction a generalizing b with
  | nil =>
    obtain rfl := length_eq_zero_iff.mp hlen.symm
    rfl
  | cons c cs ih =>
    obtain ⟨d, ds, rfl⟩ := exists_cons_of_length_eq_add_one hlen.symm
    have hcs : ∀ x ∈ cs, isDigit x = true := fun x hx => ha x (mem_cons_of_mem _ hx)
    have hds : ∀ x ∈ ds, isDigit x = true := fun x hx => hb x (mem_cons_of_mem _ hx)
    have hlen' : cs.length = ds.length := by simpa using hlen
    rw [compare_digits_cons hlen' (ha c mem_cons_self) (hb d mem_cons_self) hcs hds,
      ih hlen' hcs hds, List.compare_eq_compareLex, List.compareLex_cons_cons]

theorem isNumber_spec (h : isNumber a = true) :
    (∀ c ∈ a, isDigit c = true) ∧ (a.length = 1 ∨ 1 < a.length ∧ a.head? ≠ some (cu '0')) := by
  simp only [isNumber, isNumeric, Bool.and_eq_true, Bool.or_eq_true, decide_eq_true_eq,
    all_eq_true] at h
  obtain ⟨⟨hne, hall⟩, hlen⟩ := h
  refine ⟨hall, ?_⟩
  have hpos : 0 < a.length := length_pos_iff.mpr hne
  rcases hlen with hlen | hhead
  · exact .inl hlen
  · by_cases hone : a.length = 1
    · exact .inl hone
    · exact .inr ⟨by omega, hhead⟩

/-- A longer number without a leading zero is larger. -/
theorem digitsValue_lt_of_length (ha : isNumber a = true) (hb : isNumber b = true)
    (hlen : a.length < b.length) : digitsValue a < digitsValue b := by
  obtain ⟨hda, -⟩ := isNumber_spec ha
  obtain ⟨hdb, hhead⟩ := isNumber_spec hb
  have hlt := digitsValue_lt hda
  cases b with
  | nil => simp at hlen
  | cons d ds =>
    have hd := isDigit_bounds (hdb d mem_cons_self)
    have hne : d.toNat ≠ 48 := by
      rcases hhead with hone | ⟨-, hhead⟩
      · -- one digit is not longer than a number
        have hpos : 0 < a.length := by
          rcases (isNumber_spec ha).2 with h | h <;> omega
        omega
      · intro he
        refine hhead ?_
        rw [List.head?_cons]
        exact congrArg some (UInt16.toNat_inj.mp he)
    rw [length_cons] at hlen
    have hpow : 10 ^ a.length ≤ 10 ^ ds.length := Nat.pow_le_pow_right (by omega) (by omega)
    have hmul : 1 * 10 ^ ds.length ≤ (d.toNat - 48) * 10 ^ ds.length :=
      Nat.mul_le_mul_right _ (by omega)
    rw [digitsValue_cons]
    omega

/-- **Comparing digit strings without leading zeros, shorter ones first, is comparing numbers.** -/
theorem compare_digitsValue (ha : isNumber a = true) (hb : isNumber b = true) :
    compare (digitsValue a) (digitsValue b) = (compare a.length b.length).then (compare a b) := by
  rcases Nat.lt_trichotomy a.length b.length with hlt | heq | hgt
  · rw [Nat.compare_eq_lt.mpr hlt, Nat.compare_eq_lt.mpr (digitsValue_lt_of_length ha hb hlt)]
    rfl
  · rw [Nat.compare_eq_eq.mpr heq, Ordering.eq_then,
      compare_digits heq (isNumber_spec ha).1 (isNumber_spec hb).1]
  · rw [Nat.compare_eq_gt.mpr hgt, Nat.compare_eq_gt.mpr (digitsValue_lt_of_length hb ha hgt)]
    rfl

theorem digitsValue_inj (ha : isNumber a = true) (hb : isNumber b = true)
    (h : digitsValue a = digitsValue b) : a = b := by
  have hcmp := compare_digitsValue ha hb
  rw [h, Nat.compare_eq_eq.mpr rfl, eq_comm, Ordering.then_eq_eq] at hcmp
  exact LawfulEqOrd.eq_of_compare hcmp.2

/-! ## Identifiers -/

theorem isNumber_of_isIdentifier (h : isIdentifier a = true)
    (hnum : isNumeric a = true) : isNumber a = true := by
  simp only [isIdentifier, hnum, Bool.not_true, Bool.false_or, Bool.and_eq_true] at h
  exact h.2

theorem compareIdentifiers_eq (ha : isIdentifier a = true)
    (hb : isIdentifier b = true) : compareIdentifiers a b = identifierPrecedence a b := by
  rw [compareIdentifiers, identifierPrecedence]
  split
  · rename_i h
    obtain ⟨hna, hnb⟩ := Bool.and_eq_true_iff.mp h
    exact (compare_digitsValue (isNumber_of_isIdentifier ha hna)
      (isNumber_of_isIdentifier hb hnb)).symm
  · rfl

theorem comparePrerelease_eq {a b : List JsString} (ha : ∀ id ∈ a, isIdentifier id = true)
    (hb : ∀ id ∈ b, isIdentifier id = true) : comparePrerelease a b = prereleasePrecedence a b := by
  have hlex : ∀ {a b : List JsString}, (∀ id ∈ a, isIdentifier id = true) →
      (∀ id ∈ b, isIdentifier id = true) →
        List.compareLex compareIdentifiers a b = identifiersPrecedence a b := by
    intro a
    induction a with
    | nil =>
      intro b _ _
      cases b <;> rfl
    | cons x xs ih =>
      intro b ha hb
      cases b with
      | nil => rfl
      | cons y ys =>
        rw [List.compareLex_cons_cons, identifiersPrecedence,
          compareIdentifiers_eq (ha x mem_cons_self) (hb y mem_cons_self),
          ih (fun id hid => ha id (mem_cons_of_mem _ hid))
            fun id hid => hb id (mem_cons_of_mem _ hid)]
  rw [comparePrerelease, prereleasePrecedence, hlex ha hb]
  simp

theorem identifierPrecedence_eq_eq (ha : isIdentifier a = true)
    (hb : isIdentifier b = true) : identifierPrecedence a b = .eq ↔ a = b := by
  constructor
  · intro h
    rw [identifierPrecedence] at h
    split at h
    · rename_i hnum
      obtain ⟨hna, hnb⟩ := Bool.and_eq_true_iff.mp hnum
      exact digitsValue_inj (isNumber_of_isIdentifier ha hna) (isNumber_of_isIdentifier hb hnb)
        (Nat.compare_eq_eq.mp h)
    · split at h
      · cases h
      · split at h
        · cases h
        · exact LawfulEqOrd.eq_of_compare h
  · rintro rfl
    rw [← compareIdentifiers_eq ha ha]
    exact ReflCmp.compare_self

theorem prereleasePrecedence_eq_eq {a b : List JsString} (ha : ∀ id ∈ a, isIdentifier id = true)
    (hb : ∀ id ∈ b, isIdentifier id = true) : prereleasePrecedence a b = .eq ↔ a = b := by
  have hids : ∀ {a b : List JsString}, (∀ id ∈ a, isIdentifier id = true) →
      (∀ id ∈ b, isIdentifier id = true) → (identifiersPrecedence a b = .eq ↔ a = b) := by
    intro a
    induction a with
    | nil =>
      intro b _ _
      cases b <;> simp [identifiersPrecedence]
    | cons x xs ih =>
      intro b ha hb
      cases b with
      | nil => simp [identifiersPrecedence]
      | cons y ys =>
        rw [identifiersPrecedence, Ordering.then_eq_eq,
          identifierPrecedence_eq_eq (ha x mem_cons_self) (hb y mem_cons_self),
          ih (fun id hid => ha id (mem_cons_of_mem _ hid))
            (fun id hid => hb id (mem_cons_of_mem _ hid)), List.cons.injEq]
  rw [prereleasePrecedence]
  by_cases hanil : a = []
  · by_cases hbnil : b = []
    · simp [hanil, hbnil]
    · simp [hanil, hbnil, Ne.symm hbnil]
  · by_cases hbnil : b = []
    · simp [hanil, hbnil]
    · simp only [hanil, hbnil, false_and, if_false]
      exact hids ha hb

/-! ## The main numbers -/

theorem toNumber_eq (n : Nat) : toNumber n = min (Rounding.toBits 52 n) (2 ^ 1024) := by
  rw [toNumber, Rounding.toBits]
  split
  · rename_i h
    have hpow : (2 : Nat) ^ 53 ≤ 2 ^ 1024 := Nat.pow_le_pow_right (by omega) (by omega)
    omega
  · simp only [Rounding.toMultiple, Bool.or_eq_true, Bool.and_eq_true, decide_eq_true_eq]

/-- **`Number` keeps the order of whole numbers.** -/
theorem toNumber_mono {m n : Nat} (h : m ≤ n) : toNumber m ≤ toNumber n := by
  rw [toNumber_eq, toNumber_eq]
  have hbits := Rounding.toBits_mono 52 h
  omega

theorem toNumber_of_lt {n : Nat} (h : n < 2 ^ 53) : toNumber n = n := if_pos h

theorem compare_toNumber {x y : Nat} (h : toNumber x ≠ toNumber y) :
    compare (toNumber x) (toNumber y) = compare x y := by
  rcases Nat.lt_trichotomy x y with hlt | rfl | hgt
  · have hmono := toNumber_mono hlt.le
    rw [Nat.compare_eq_lt.mpr hlt, Nat.compare_eq_lt.mpr (by omega)]
  · exact absurd rfl h
  · have hmono := toNumber_mono hgt.le
    rw [Nat.compare_eq_gt.mpr hgt, Nat.compare_eq_gt.mpr (by omega)]

/-- The first numbers that differ also differ as doubles, or what stands behind them, `rest` last,
happens to compare the same way. -/
def ToldApart : List Nat → List Nat → Ordering → Prop
  | x :: xs, y :: ys, rest =>
    if x = y then ToldApart xs ys rest
    else toNumber x ≠ toNumber y ∨
      (compare (xs.map toNumber) (ys.map toNumber)).then rest = compare x y
  | _, _, _ => True

theorem toldApart_iff {xs ys : List Nat} (hlen : xs.length = ys.length) (rest : Ordering) :
    (compare (xs.map toNumber) (ys.map toNumber)).then rest = (compare xs ys).then rest ↔
      ToldApart xs ys rest := by
  induction xs generalizing ys with
  | nil =>
    obtain rfl := length_eq_zero_iff.mp hlen.symm
    simp [ToldApart]
  | cons x xs ih =>
    obtain ⟨y, ys, rfl⟩ := exists_cons_of_length_eq_add_one hlen.symm
    have hlen' : xs.length = ys.length := by simpa using hlen
    have hcons : ∀ (a b : Nat) (as bs : List Nat),
        compare (a :: as) (b :: bs) = (compare a b).then (compare as bs) := by
      intro a b as bs
      rw [List.compare_eq_compareLex, List.compareLex_cons_cons]
    rw [map_cons, map_cons, hcons, hcons, ToldApart, Ordering.then_assoc, Ordering.then_assoc]
    by_cases hxy : x = y
    · rw [if_pos hxy, hxy, Nat.compare_eq_eq.mpr rfl, Nat.compare_eq_eq.mpr rfl, Ordering.eq_then,
        Ordering.eq_then, ih hlen']
    · have hne : compare x y ≠ .eq := fun he => hxy (Nat.compare_eq_eq.mp he)
      have hthen : ∀ o : Ordering, (compare x y).then o = compare x y := by
        intro o
        cases hc : compare x y
        · rfl
        · exact absurd hc hne
        · rfl
      rw [if_neg hxy, hthen]
      by_cases hnum : toNumber x = toNumber y
      · rw [Nat.compare_eq_eq.mpr hnum, Ordering.eq_then]
        exact ⟨fun h => .inr h, fun h => h.resolve_left fun hn => hn hnum⟩
      · rw [compare_toNumber hnum, hthen]
        exact ⟨fun _ => .inl hnum, fun _ => rfl⟩

/-! ## Accepted strings -/

/-- A version text that was read as `v`. -/
structure Reads (text : JsString) (v : Semver) : Prop where
  numbers : ∀ piece ∈ split (cutFirst (cu '-') text).1 [cu '.'], isNumber piece = true
  identifiers : ∀ id ∈ identifiersOf text, isIdentifier id = true
  main : [v.major, v.minor, v.patch] = (numbersOf text).map toNumber
  prerelease : v.prerelease = identifiersOf text

variable {v : Semver}

/-- The well-formed numbers of a core are read one by one. -/
theorem parseNumbers_spec {core : JsString} {ids : List JsString}
    (h : parseNumbers core ids = some v) :
    (∀ piece ∈ split core [cu '.'], isNumber piece = true) ∧
      [v.major, v.minor, v.patch] = ((split core [cu '.']).map digitsValue).map toNumber ∧
      v.prerelease = ids := by
  rw [parseNumbers] at h
  split at h
  · rename_i a b c hsplit
    split at h
    · rename_i hnumbers
      simp only [Bool.and_eq_true] at hnumbers
      obtain ⟨⟨ha, hb⟩, hc⟩ := hnumbers
      obtain rfl := Option.some.inj h
      rw [hsplit]
      refine ⟨fun piece hpiece => ?_, rfl, rfl⟩
      rcases mem_cons.mp hpiece with rfl | hpiece
      · exact ha
      rcases mem_cons.mp hpiece with rfl | hpiece
      · exact hb
      · exact mem_singleton.mp hpiece ▸ hc
    · cases h
  · cases h

theorem reads_of_parseSemver {input : JsString} (h : parseSemver input = some v) :
    Reads (versionText input) v := by
  have hform : ∃ metas : Bool, parseSemver input =
      if (identifiersOf (versionText input)).all isIdentifier && metas then
        parseNumbers (cutFirst (cu '-') (versionText input)).1 (identifiersOf (versionText input))
      else none := ⟨_, rfl⟩
  obtain ⟨metas, hform⟩ := hform
  rw [hform] at h
  split at h
  · rename_i hvalid
    obtain ⟨hids, -⟩ := Bool.and_eq_true_iff.mp hvalid
    obtain ⟨hnumbers, hmain, hpre⟩ := parseNumbers_spec h
    exact ⟨hnumbers, all_eq_true.mp hids, hmain, hpre⟩
  · cases h

theorem cutFirst_eq {c : CodeUnit} (text : JsString) :
    text = (cutFirst c text).1 ++ ((cutFirst c text).2.map (c :: ·)).getD [] := by
  have hsplit := takeWhile_append_dropWhile (p := (· ≠ c)) (l := text)
  rw [cutFirst]
  conv_lhs => rw [← hsplit]
  congr 1
  cases hdrop : text.dropWhile (· ≠ c) with
  | nil => rfl
  | cons d ds =>
    have hnot := List.head?_dropWhile_not (· ≠ c) text
    rw [hdrop] at hnot
    have hd : d = c := by simpa using hnot
    rw [hd]
    rfl

/-- The numbers and identifiers make up the whole text. -/
theorem Reads.eq_of_parts {w : Semver} (ha : Reads a v) (hb : Reads b w)
    (hnumbers : numbersOf a = numbersOf b) (hids : identifiersOf a = identifiersOf b) : a = b := by
  have hpieces : split (cutFirst (cu '-') a).1 [cu '.'] =
      split (cutFirst (cu '-') b).1 [cu '.'] := by
    have hna := ha.numbers
    have hnb := hb.numbers
    rw [numbersOf, numbersOf] at hnumbers
    generalize split (cutFirst (cu '-') a).1 [cu '.'] = p at hnumbers hna ⊢
    generalize split (cutFirst (cu '-') b).1 [cu '.'] = q at hnumbers hnb ⊢
    induction p generalizing q with
    | nil => exact (map_eq_nil_iff.mp hnumbers.symm).symm
    | cons x xs ih =>
      cases q with
      | nil => cases hnumbers
      | cons y ys =>
        obtain ⟨hxy, hrest⟩ := List.cons.inj hnumbers
        rw [digitsValue_inj (hna x mem_cons_self) (hnb y mem_cons_self) hxy,
          ih (fun z hz => hna z (mem_cons_of_mem _ hz)) ys hrest
            fun z hz => hnb z (mem_cons_of_mem _ hz)]
  have hfirst : (cutFirst (cu '-') a).1 = (cutFirst (cu '-') b).1 := by
    rw [← join_split_unit (cu '.') (cutFirst (cu '-') a).1, hpieces, join_split_unit]
  have hsecond : (cutFirst (cu '-') a).2 = (cutFirst (cu '-') b).2 := by
    rw [identifiersOf, identifiersOf] at hids
    have hne : ∀ text : JsString, split text [cu '.'] ≠ [] := fun text => splitGo_ne_nil _ _ _
    cases hpa : (cutFirst (cu '-') a).2 with
    | none =>
      cases hpb : (cutFirst (cu '-') b).2 with
      | none => rfl
      | some q =>
        rw [hpa, hpb] at hids
        exact absurd hids.symm (hne q)
    | some p =>
      cases hpb : (cutFirst (cu '-') b).2 with
      | none =>
        rw [hpa, hpb] at hids
        exact absurd hids (hne p)
      | some q =>
        rw [hpa, hpb] at hids
        have hsplit : split p [cu '.'] = split q [cu '.'] := hids
        rw [← join_split_unit (cu '.') p, hsplit, join_split_unit]
  rw [@cutFirst_eq (cu '-') a, @cutFirst_eq (cu '-') b, hfirst, hsecond]

theorem compareSemver_eq {w : Semver} (ha : Reads a v) (hb : Reads b w) : compareSemver v w =
      (compare ((numbersOf a).map toNumber) ((numbersOf b).map toNumber)).then
        (prereleasePrecedence (identifiersOf a) (identifiersOf b)) := by
  have hcons : ∀ (x y : Nat) (xs ys : List Nat),
      compare (x :: xs) (y :: ys) = (compare x y).then (compare xs ys) := by
    intro x y xs ys
    rw [List.compare_eq_compareLex, List.compareLex_cons_cons]
  have hnil : compare ([] : List Nat) [] = .eq := rfl
  rw [← ha.main, ← hb.main, hcons, hcons, hcons, hnil, Ordering.then_eq, compareSemver,
    ← comparePrerelease_eq ha.identifiers hb.identifiers, ha.prerelease, hb.prerelease,
    Ordering.then_assoc, Ordering.then_assoc]

theorem precedence_eq_eq {w : Semver} (ha : Reads a v) (hb : Reads b w) :
    precedence a b = .eq ↔ a = b := by
  rw [precedence, Ordering.then_eq_eq, prereleasePrecedence_eq_eq ha.identifiers hb.identifiers]
  constructor
  · rintro ⟨hnumbers, hids⟩
    exact ha.eq_of_parts hb (LawfulEqOrd.eq_of_compare hnumbers) hids
  · rintro rfl
    exact ⟨ReflCmp.compare_self, rfl⟩

theorem Reads.length_numbersOf {text : JsString} (h : Reads text v) :
    (numbersOf text).length = 3 := by
  have hlen := congrArg List.length h.main
  rw [length_map] at hlen
  exact hlen.symm

/-- **`compareSemver` is a total preorder, and it is the precedence of the specification exactly
for versions whose main numbers are told apart.** -/
theorem compareSemver_iff {a b : JsString} {v w : Semver} (ha : parseSemver a = some v)
    (hb : parseSemver b = some w) :
    TransCmp compareSemver ∧
      ((compareSemver v w = precedence (versionText a) (versionText b) ∧
          (compareSemver v w = .eq ↔ versionText a = versionText b)) ↔
        ToldApart (numbersOf (versionText a)) (numbersOf (versionText b))
          (prereleasePrecedence (identifiersOf (versionText a))
            (identifiersOf (versionText b)))) := by
  have hra := reads_of_parseSemver ha
  have hrb := reads_of_parseSemver hb
  have hlen : (numbersOf (versionText a)).length = (numbersOf (versionText b)).length := by
    rw [hra.length_numbersOf, hrb.length_numbersOf]
  refine ⟨inferInstance, ?_⟩
  rw [← toldApart_iff hlen, ← compareSemver_eq hra hrb, ← precedence]
  constructor
  · exact fun h => h.1
  · intro h
    refine ⟨h, ?_⟩
    rw [h]
    exact precedence_eq_eq hra hrb

theorem compareSemver_rc :
    TransCmp compareSemver ∧
      ((compareSemver ⟨1, 2, 4, [js "rc", js "2"]⟩ ⟨1, 2, 4, []⟩ =
            precedence (versionText (js "v1.2.4-rc.2+x")) (versionText (js "1.2.4")) ∧
          (compareSemver ⟨1, 2, 4, [js "rc", js "2"]⟩ ⟨1, 2, 4, []⟩ = .eq ↔
            versionText (js "v1.2.4-rc.2+x") = versionText (js "1.2.4"))) ↔
        ToldApart (numbersOf (versionText (js "v1.2.4-rc.2+x")))
          (numbersOf (versionText (js "1.2.4")))
          (prereleasePrecedence (identifiersOf (versionText (js "v1.2.4-rc.2+x")))
            (identifiersOf (versionText (js "1.2.4"))))) :=
  compareSemver_iff (by decide) (by decide)

/-- The major numbers `2 ^ 53 + 1` and `2 ^ 53` are one double. -/
theorem compareSemver_double :
    (∃ v w, parseSemver (js "9007199254740993.0.0") = some v ∧
      parseSemver (js "9007199254740992.0.0") = some w ∧ compareSemver v w = .eq) ∧
      precedence (versionText (js "9007199254740993.0.0"))
        (versionText (js "9007199254740992.0.0")) = .gt := by
  have hpow : (2 : Nat) ^ 53 ≤ 2 ^ 1024 := Nat.pow_le_pow_right (by decide) (by decide)
  rw [show (2 : Nat) ^ 53 = 9007199254740992 by decide] at hpow
  have hodd : toNumber 9007199254740993 = 9007199254740992 := by
    rw [toNumber_eq, show Rounding.toBits 52 9007199254740993 = 9007199254740992 by decide,
      min_eq_left hpow]
  have heven : toNumber 9007199254740992 = 9007199254740992 := by
    rw [toNumber_eq, show Rounding.toBits 52 9007199254740992 = 9007199254740992 by decide,
      min_eq_left hpow]
  have hzero : toNumber 0 = 0 := rfl
  refine ⟨⟨⟨toNumber (digitsValue (js "9007199254740993")), toNumber 0, toNumber 0, []⟩,
    ⟨toNumber (digitsValue (js "9007199254740992")), toNumber 0, toNumber 0, []⟩, ?_, ?_, ?_⟩, ?_⟩
  · rfl
  · rfl
  · rw [show digitsValue (js "9007199254740993") = 9007199254740993 by decide,
      show digitsValue (js "9007199254740992") = 9007199254740992 by decide, hodd, heven, hzero]
    decide
  · decide

end Aoox.ImageTags
