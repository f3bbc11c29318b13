import Aoox.FieldChecks
import Aoox.SemverPrecedence

/-! # Numbers from text

`Number(text)` reads white space as zero, hexadecimal, octal and binary numbers,
signs, fractions and exponents, and rounds what it read to a double.  A finite
double is a whole number of `2 ^ -1074`, so it is kept as that number.  For a text
of digits it is the number the digits write, if that is below `2 ^ 53`
(`number_digits`), and not below it otherwise (`le_of_number_digits`).
-/
namespace Aoox.JsNumber

open JsString ImageTags FieldChecks Option Bool

/-- How often the least positive double fits into one. -/
@[irreducible] def one : Nat := 2 ^ 1074

/-- What is not below this is infinite. -/
@[irreducible] def infinity : Nat := 2 ^ 1024 * one

theorem one_eq : one = 2 ^ 1074 := by unfold one; rfl

theorem one_pos : 0 < one := by
  rw [one_eq]
  exact Nat.two_pow_pos _

theorem lt_infinity {n : Nat} (h : n < 2 ^ 53) : n * one < infinity := by
  have hpow : (2 : Nat) ^ 53 ≤ 2 ^ 1024 := Nat.pow_le_pow_right (by omega) (by omega)
  unfold infinity
  exact Nat.mul_lt_mul_of_pos_right (by omega) one_pos

/-- The double nearest to `n / d`, unless that is infinite. -/
def finite (n d : Nat) : Option Nat :=
  (some (Rounding.nearest 52 (n * one) d)).filter (· < infinity)

/-- The radix that follows a leading `0`. -/
def radixOf (c : CodeUnit) : Option Nat :=
  if c = cu 'x' || c = cu 'X' then some 16
  else if c = cu 'o' || c = cu 'O' then some 8
  else if c = cu 'b' || c = cu 'B' then some 2
  else none

def wholeIn (radix : Nat) (digits : JsString) : Option Nat :=
  if digits = [] then none
  else digits.foldlM (fun n c => ((hexValue c).filter (· < radix)).map (radix * n + ·)) 0

/-- The digits behind `0x`, `0o` or `0b`. -/
def prefixed : JsString → Option (Nat × JsString)
  | z :: x :: rest => if z = cu '0' then (radixOf x).map (·, rest) else none
  | _ => none

def exponent : JsString → Option Int
  | [] => none
  | c :: cs =>
    if c = cu '+' then if isNumeric cs then some (digitsValue cs) else none
    else if c = cu '-' then if isNumeric cs then some (-digitsValue cs) else none
    else if isNumeric (c :: cs) then some (digitsValue (c :: cs)) else none

/-- A decimal number without a sign: the number of its digits and the power of ten. -/
def decimal (text : JsString) : Option (Nat × Int) :=
  let mantissa := text.takeWhile fun c => c ≠ cu 'e' && c ≠ cu 'E'
  let (whole, fraction) := cutFirst (cu '.') mantissa
  let digits := whole ++ fraction.getD []
  if isNumeric digits then
    match text.drop mantissa.length with
    | [] => some (digitsValue digits, -(fraction.getD []).length)
    | _ :: power => (exponent power).map fun e => (digitsValue digits, e - (fraction.getD []).length)
  else none

def unsigned (text : JsString) : Option Nat :=
  (decimal text).bind fun (n, e) => finite (n * 10 ^ e.toNat) (10 ^ (-e).toNat)

/-- `Number(text)`; `none` is `NaN` or infinite. -/
def number (input : JsString) : Option Int :=
  match prefixed (trim input), trim input with
  | some (radix, digits), _ => (wholeIn radix digits).bind fun n => (finite n 1).map Int.ofNat
  | none, [] => some 0
  | none, c :: cs =>
    if c = cu '+' then (unsigned cs).map Int.ofNat
    else if c = cu '-' then (unsigned cs).map fun n => -(n : Int)
    else (unsigned (c :: cs)).map Int.ofNat

variable {text : JsString}

theorem isNumeric_spec (h : isNumeric text = true) : text ≠ [] ∧ ∀ c ∈ text, isDigit c = true := by
  simpa [isNumeric] using h

/-- A digit is none of the other characters of a numeral. -/
theorem ne_of_isDigit {c d : CodeUnit} (h : isDigit c = true) (hd : isDigit d = false) : c ≠ d := by
  rintro rfl
  rw [h] at hd
  cases hd

theorem trim_digits (h : ∀ c ∈ text, isDigit c = true) : trim text = text := by
  have hspace : ∀ c, isDigit c = true → isSpace c = false := by
    intro c hc
    simp only [isDigit, cu, and_eq_true, decide_eq_true_eq, UInt16.le_iff_toNat_le] at hc
    simp only [isSpace, or_eq_false_iff, and_eq_false_iff, decide_eq_false_iff_not,
      beq_eq_false_iff_ne, ne_eq, UInt16.le_iff_toNat_le, ← UInt16.toNat_inj]
    simp at hc ⊢
    omega
  refine trim_eq_self (fun c hc => hspace c (h c ?_)) fun c hc => hspace c (h c ?_)
  · exact List.mem_of_mem_head? hc
  · exact List.mem_of_mem_getLast? hc

theorem decimal_digits (h : isNumeric text = true) : decimal text = some (digitsValue text, 0) := by
  obtain ⟨-, hall⟩ := isNumeric_spec h
  have hmantissa : (text.takeWhile fun c => c ≠ cu 'e' && c ≠ cu 'E') = text := by
    refine List.takeWhile_eq_self_iff.mpr fun c hc => ?_
    simp [ne_of_isDigit (hall c hc) (by decide : isDigit (cu 'e') = false),
      ne_of_isDigit (hall c hc) (by decide : isDigit (cu 'E') = false)]
  have hpoint : ∀ c ∈ text, decide (c ≠ cu '.') = true := fun c hc =>
    decide_eq_true (ne_of_isDigit (hall c hc) (by decide))
  have hcut : cutFirst (cu '.') text = (text, none) := by
    rw [cutFirst, List.takeWhile_eq_self_iff.mpr hpoint, List.dropWhile_eq_nil_iff.mpr hpoint]
    rfl
  simp only [decimal, hmantissa, hcut, getD_none, List.append_nil, h, if_true,
    List.drop_length, List.length_nil]
  rfl

theorem prefixed_digits (h : ∀ c ∈ text, isDigit c = true) : prefixed text = none := by
  rcases text with _ | ⟨z, _ | ⟨x, rest⟩⟩
  · rfl
  · rfl
  · have hx := h x (by simp)
    have hradix : radixOf x = none := by
      simp only [radixOf, or_eq_true, decide_eq_true_eq]
      rw [if_neg, if_neg, if_neg]
      all_goals rintro (hc | hc) <;> exact ne_of_isDigit hx (by decide) hc
    simp [prefixed, hradix]

/-- Digits are read as they stand, up to rounding. -/
theorem number_digits_eq (h : isNumeric text = true) :
    number text = (finite (digitsValue text) 1).map Int.ofNat := by
  obtain ⟨hne, hall⟩ := isNumeric_spec h
  rw [number, trim_digits hall, prefixed_digits hall]
  obtain ⟨c, cs, rfl⟩ := List.exists_cons_of_ne_nil hne
  have hc := hall c List.mem_cons_self
  have hunsigned : unsigned (c :: cs) = finite (digitsValue (c :: cs)) 1 := by
    rw [unsigned, decimal_digits h, bind_some]
    simp only [Int.neg_zero, Int.toNat_zero, pow_zero, Nat.mul_one]
  rw [← hunsigned]
  exact (if_neg (ne_of_isDigit hc (by decide))).trans (if_neg (ne_of_isDigit hc (by decide)))

theorem toBits_mul_one {n : Nat} (h : n < 2 ^ 53) : Rounding.toBits 52 (n * one) = n * one := by
  rw [one_eq]
  exact Rounding.toBits_mul_pow h _

theorem finite_of_lt {n : Nat} (h : n < 2 ^ 53) : finite n 1 = some (n * one) := by
  rw [finite, Rounding.nearest_one, toBits_mul_one h, filter_some, if_pos]
  exact decide_eq_true (lt_infinity h)

/-- **Digits below `2 ^ 53` are read exactly.** -/
theorem number_digits (h : isNumeric text = true) (hlt : digitsValue text < 2 ^ 53) :
    number text = some ((digitsValue text * one : Nat) : Int) := by
  rw [number_digits_eq h, finite_of_lt hlt]
  rfl

/-- From there on they are not read as less. -/
theorem le_of_number_digits (h : isNumeric text = true) (hle : 2 ^ 53 ≤ digitsValue text) {u : Int}
    (hu : number text = some u) : (((2 ^ 53 - 1) * one : Nat) : Int) ≤ u := by
  rw [number_digits_eq h, finite, Rounding.nearest_one] at hu
  obtain ⟨v, hv, rfl⟩ := map_eq_some_iff.mp hu
  obtain ⟨hv, -⟩ := filter_eq_some_iff.mp hv
  obtain rfl := some.inj hv
  have hmono := Rounding.toBits_mono 52
    (Nat.mul_le_mul_right one (show 2 ^ 53 - 1 ≤ digitsValue text by omega))
  rw [toBits_mul_one (by omega)] at hmono
  exact Int.ofNat_le.mpr hmono

end Aoox.JsNumber
