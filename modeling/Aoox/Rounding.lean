import Mathlib.Data.Nat.Log
import Mathlib.Tactic.Ring

/-! # Rounding to the nearest multiple

A number is rounded to the nearest multiple of a unit, to the even one of two.
Multiples are their own rounding, rounding keeps the order (`toMultiple_mono`), and
so a number stays on the same side of every multiple.
-/
namespace Rounding

/-- The multiple of `unit` nearest to `n`, ties to even. -/
def toMultiple (unit n : Nat) : Nat :=
  (if unit < 2 * (n % unit) ∨ 2 * (n % unit) = unit ∧ n / unit % 2 = 1 then n / unit + 1
    else n / unit) * unit

variable {unit : Nat}

/-- The multiplier lies between the quotient and the next number. -/
theorem toMultiple_bounds (unit n : Nat) :
    n / unit * unit ≤ toMultiple unit n ∧ toMultiple unit n ≤ (n / unit + 1) * unit := by
  rw [toMultiple]
  split
  · exact ⟨Nat.mul_le_mul_right unit (Nat.le_succ _), le_rfl⟩
  · exact ⟨le_rfl, Nat.mul_le_mul_right unit (Nat.le_succ _)⟩

theorem toMultiple_mul (h : 0 < unit) (k : Nat) : toMultiple unit (k * unit) = k * unit := by
  have hmod : k * unit % unit = 0 := Nat.mul_mod_left k unit
  rw [toMultiple, hmod, Nat.mul_div_left k h, if_neg]
  omega

/-- **Rounding keeps the order.** -/
theorem toMultiple_mono (h : 0 < unit) {m n : Nat} (hmn : m ≤ n) :
    toMultiple unit m ≤ toMultiple unit n := by
  have hdiv : m / unit ≤ n / unit := Nat.div_le_div_right hmn
  rcases Nat.lt_or_eq_of_le hdiv with hlt | heq
  · calc toMultiple unit m ≤ (m / unit + 1) * unit := (toMultiple_bounds unit m).2
      _ ≤ n / unit * unit := Nat.mul_le_mul_right unit hlt
      _ ≤ toMultiple unit n := (toMultiple_bounds unit n).1
  · -- with one quotient the larger rest is rounded up whenever the smaller one is
    have hm := Nat.div_add_mod m unit
    have hn := Nat.div_add_mod n unit
    rw [heq] at hm
    have hmod : m % unit ≤ n % unit := by omega
    rw [toMultiple, toMultiple, heq]
    refine Nat.mul_le_mul_right unit ?_
    split
    · rename_i hup
      rw [if_pos]
      rcases hup with hup | ⟨hup, hodd⟩
      · exact .inl (by omega)
      · by_cases htie : 2 * (n % unit) = unit
        · exact .inr ⟨htie, hodd⟩
        · exact .inl (by omega)
    · split <;> omega

theorem le_toMultiple (h : 0 < unit) {k n : Nat} (hk : k * unit ≤ n) :
    k * unit ≤ toMultiple unit n := by
  have hmono := toMultiple_mono h hk
  rwa [toMultiple_mul h] at hmono

theorem toMultiple_le (h : 0 < unit) {k n : Nat} (hk : n ≤ k * unit) :
    toMultiple unit n ≤ k * unit := by
  have hmono := toMultiple_mono h hk
  rwa [toMultiple_mul h] at hmono

/-! ## Significant bits -/

/-- `n` rounded to `p + 1` significant bits. -/
def toBits (p n : Nat) : Nat :=
  if n < 2 ^ (p + 1) then n else toMultiple (2 ^ (n.log2 - p)) n

theorem toBits_of_lt {p n : Nat} (h : n < 2 ^ (p + 1)) : toBits p n = n := if_pos h

/-- The unit of a number with more bits, and the powers of two around it. -/
theorem toBits_spec {p n : Nat} (h : 2 ^ (p + 1) ≤ n) :
    toBits p n = toMultiple (2 ^ (n.log2 - p)) n ∧ p + 1 ≤ n.log2 ∧
      2 ^ n.log2 ≤ toBits p n ∧ toBits p n ≤ 2 ^ (n.log2 + 1) := by
  have hne : n ≠ 0 := by
    rintro rfl
    exact absurd h (by simp)
  have hlog : p + 1 ≤ n.log2 := (Nat.le_log2 hne).mpr h
  have hlow : 2 ^ n.log2 ≤ n := Nat.log2_self_le hne
  have hhigh : n ≤ 2 ^ (n.log2 + 1) := Nat.lt_log2_self.le
  have heq : toBits p n = toMultiple (2 ^ (n.log2 - p)) n := if_neg (by omega)
  have hsplit : ∀ e, p ≤ e → 2 ^ e = 2 ^ p * 2 ^ (e - p) := by
    intro e he
    rw [← Nat.pow_add, Nat.add_sub_cancel' he]
  have hpos : 0 < 2 ^ (n.log2 - p) := Nat.two_pow_pos _
  have hup : 2 ^ (n.log2 + 1) = 2 ^ (p + 1) * 2 ^ (n.log2 - p) := by
    rw [← Nat.pow_add]
    congr 1
    omega
  refine ⟨heq, hlog, ?_, ?_⟩
  · rw [heq, hsplit n.log2 (by omega)]
    refine le_toMultiple hpos ?_
    rwa [← hsplit n.log2 (by omega)]
  · rw [heq, hup]
    refine toMultiple_le hpos ?_
    rwa [← hup]

/-- **Rounding to significant bits keeps the order.** -/
theorem toBits_mono (p : Nat) {m n : Nat} (hmn : m ≤ n) : toBits p m ≤ toBits p n := by
  by_cases hn : n < 2 ^ (p + 1)
  · rw [toBits_of_lt hn, toBits_of_lt (by omega)]
    exact hmn
  obtain ⟨hneq, hnlog, hnlow, -⟩ := toBits_spec (p := p) (n := n) (by omega)
  by_cases hm : m < 2 ^ (p + 1)
  · rw [toBits_of_lt hm]
    have hpow : 2 ^ (p + 1) ≤ 2 ^ n.log2 := Nat.pow_le_pow_right (by omega) hnlog
    omega
  obtain ⟨hmeq, hmlog, -, hmhigh⟩ := toBits_spec (p := p) (n := m) (by omega)
  have hlog : m.log2 ≤ n.log2 := by
    have hmne : m ≠ 0 := by
      rintro rfl
      simp at hm
    exact (Nat.le_log2 (by omega)).mpr ((Nat.log2_self_le hmne).trans hmn)
  rcases Nat.lt_or_eq_of_le hlog with hlt | heq
  · calc toBits p m ≤ 2 ^ (m.log2 + 1) := hmhigh
      _ ≤ 2 ^ n.log2 := Nat.pow_le_pow_right (by omega) hlt
      _ ≤ toBits p n := hnlow
  · rw [hmeq, hneq, heq]
    exact toMultiple_mono (Nat.two_pow_pos _) hmn

/-! ## Fractions -/

/-- The fraction `n / d` rounded to `p + 1` significant bits, or to a whole number where these
would reach below one. -/
def nearest (p n d : Nat) : Nat := toMultiple (d * 2 ^ ((n / d).log2 - p)) n / d

theorem nearest_one (p n : Nat) : nearest p n 1 = toBits p n := by
  rw [nearest, Nat.div_one, Nat.div_one, Nat.one_mul, toBits]
  split
  · rename_i h
    have hunit : n.log2 - p = 0 := by
      rcases Nat.eq_zero_or_pos n with rfl | hpos
      · simp
      · have hlog := (Nat.log2_lt (by omega)).mpr h
        omega
    rw [hunit]
    simpa using toMultiple_mul Nat.one_pos n
  · rfl

theorem log2_mul_pow {n : Nat} (h : n ≠ 0) (e : Nat) : (n * 2 ^ e).log2 = n.log2 + e := by
  induction e with
  | zero => simp
  | succ e ih =>
    have hne : n * 2 ^ e ≠ 0 := Nat.mul_ne_zero h (Nat.two_pow_pos e).ne'
    rw [show n * 2 ^ (e + 1) = 2 * (n * 2 ^ e) by ring, Nat.log2_two_mul hne, ih]
    omega

/-- A number of at most `p + 1` bits is its own rounding, at every scale. -/
theorem toBits_mul_pow {p n : Nat} (h : n < 2 ^ (p + 1)) (e : Nat) :
    toBits p (n * 2 ^ e) = n * 2 ^ e := by
  rw [toBits]
  split
  · rfl
  · rcases Nat.eq_zero_or_pos n with rfl | hpos
    · simp [toMultiple]
    · have hlog : n.log2 ≤ p := by
        have hlt := (Nat.log2_lt (by omega)).mpr h
        omega
      have hsum : (n * 2 ^ e).log2 = n.log2 + e := log2_mul_pow (by omega) e
      -- the unit is no larger than the scale
      have hsplit : (2 : Nat) ^ e =
          2 ^ (e - ((n * 2 ^ e).log2 - p)) * 2 ^ ((n * 2 ^ e).log2 - p) := by
        rw [← Nat.pow_add]
        congr 1
        omega
      rw [hsum] at hsplit ⊢
      rw [hsplit, ← Nat.mul_assoc]
      exact toMultiple_mul (Nat.two_pow_pos _) _

end Rounding
