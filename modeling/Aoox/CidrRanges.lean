import Aoox.IpAddresses

/-! # Addresses in a range

A webhook is let in when its address lies in one of the published ranges.
`InCidr` says what that means: two addresses of one family and a plain prefix
length, and equal bits up to it.  `ipInCidr` goes over the bytes of both addresses
with a mask made from `Number` of the suffix, which also reads an empty suffix, a
hexadecimal one or a fraction.  `ipInCidr_eq` says which bits it compares, and
`ipInCidr_iff` where this is the range.
-/
open List Option
namespace Aoox.CidrRanges

open JsString ImageTags ImageReferences JsNumber IpAddresses

/-! ## Ranges -/

/-- The first `n` bits agree, `n` depending on the length of the addresses. -/
def sameBits (x y : Option (List Bool)) (n : Nat → Option Nat) : Bool :=
  match x, y with
  | some x, some y =>
    x.length = y.length && (n x.length).any fun k => k ≤ x.length && x.take k = y.take k
  | _, _ => false

/-- The 96 bits in front of an IPv4 address in an IPv6 one. -/
def mappedBits : List Bool := List.replicate 80 false ++ List.replicate 16 true

def isMapped (x : List Bool) : Bool := x.length = 128 && x.take 96 = mappedBits

/-- An IPv4-mapped address counts as the IPv4 address. -/
def counted (x : List Bool) : List Bool := if isMapped x then x.drop 96 else x

/-- A plain decimal number. -/
def plainBits (suffix : JsString) : Option Nat :=
  if isNumeric suffix then some (digitsValue suffix) else none

/-- The range and the suffix of `range/suffix`. -/
def cutCidr (cidr : JsString) : Option (JsString × JsString) :=
  (lastIndexOf (cu '/') cidr).map fun slash => (cidr.take slash, cidr.drop (slash + 1))

/-- The address lies in the range. -/
def InCidr (ip cidr : JsString) : Bool :=
  match cutCidr cidr with
  | some (range, suffix) =>
    sameBits ((address (trim ip)).map counted) (address range) fun _ => plainBits suffix
  | none => false

/-! ## `ipInCidr` -/

/-- `\d+\.\d+\.\d+\.\d+`. -/
def isDotted (text : JsString) : Bool :=
  (split text [cu '.']).length = 4 && (split text [cu '.']).all isNumeric

/-- `::ffff:1.2.3.4` is taken for `1.2.3.4`. -/
def normalize (ip : JsString) : JsString :=
  if startsWith (toLowerCase (trim ip)) (js "::ffff:") && isDotted ((trim ip).drop 7) then
    (trim ip).drop 7
  else trim ip

/-- `8 - take` as a shift count: rounded to a double, then cut to a whole number. -/
def shift (take : Nat) : Nat := Rounding.toBits 52 (8 * one - take) / one

def mask (take : Nat) : Nat := if take = 0 then 0 else 0xff <<< shift take &&& 0xff

/-- The loop over the bytes; `remaining` loses at most eight each time. -/
def sameBytes : List Nat → List Nat → Nat → Bool
  | a :: as, b :: bs, remaining =>
    let take := min (8 * one) remaining
    (a &&& mask take) = (b &&& mask take) && sameBytes as bs (remaining - take)
  | _, _, _ => true

def ipInCidr (ip cidr : JsString) : Bool :=
  match lastIndexOf (cu '/') cidr with
  | none => false
  | some slash =>
    let range := cidr.take slash
    let a := normalize ip
    match number (cidr.drop (slash + 1)) with
    | none => false
    | some n =>
      if isIP a = 0 || isIP a ≠ isIP range then false
      else
        match (if isIP a = 4 then ipv4ToBytes a else ipv6ToBytes a),
            (if isIP a = 4 then ipv4ToBytes range else ipv6ToBytes range) with
        | some ipBytes, some rangeBytes =>
          if n < 0 || (ipBytes.length * 8 * one : Nat) < n then false
          else sameBytes ipBytes rangeBytes n.toNat
        | _, _ => false

/-! ## Masks -/

variable {a b k : Nat}

theorem take_bits_eq_iff (hk : k ≤ 8) :
    (bits 8 a).take k = (bits 8 b).take k ↔ ∀ i < k, a.testBit (7 - i) = b.testBit (7 - i) := by
  constructor
  · intro h i hi
    have hget := congrArg (fun l : List Bool => l[i]?) h
    simpa [bits, List.getElem?_take, hi, List.getElem?_map,
      List.getElem?_range (show i < 8 by omega)] using hget
  · intro h
    refine ext_getElem (by simp [length_bits]) fun i hi _ => ?_
    have hik : i < k := by
      rw [length_take, length_bits] at hi
      omega
    simpa [bits] using h i hik

/-- A mask of the `k` high bits compares the first `k` bits. -/
theorem and_mask_eq_iff (hk : k ≤ 8) :
    (a &&& (0xff <<< (8 - k) &&& 0xff)) = (b &&& (0xff <<< (8 - k) &&& 0xff)) ↔
      (bits 8 a).take k = (bits 8 b).take k := by
  have hff : ∀ j, Nat.testBit 0xff j = decide (j < 8) := fun j => Nat.testBit_two_pow_sub_one 8 j
  have hmask : ∀ j, Nat.testBit (0xff <<< (8 - k) &&& 0xff) j = decide (8 - k ≤ j ∧ j < 8) := by
    intro j
    rw [Nat.testBit_and, Nat.testBit_shiftLeft, hff, hff]
    by_cases hlow : 8 - k ≤ j <;> by_cases hhigh : j < 8 <;> simp [hlow, hhigh] <;> omega
  rw [take_bits_eq_iff hk]
  constructor
  · intro h i hi
    have hbit := congrArg (fun n => Nat.testBit n (7 - i)) h
    simpa only [Nat.testBit_and, hmask, decide_eq_true (show 8 - k ≤ 7 - i ∧ 7 - i < 8 by omega),
      Bool.and_true] using hbit
  · intro h
    refine Nat.eq_of_testBit_eq fun j => ?_
    rw [Nat.testBit_and a, Nat.testBit_and b, hmask]
    by_cases hj : 8 - k ≤ j ∧ j < 8
    · have hbit := h (7 - j) (by omega)
      rw [show 7 - (7 - j) = j by omega] at hbit
      rw [hbit]
    · rw [decide_eq_false hj, Bool.and_false, Bool.and_false]

theorem shift_le (take : Nat) : shift take ≤ 8 := by
  have hmono := Rounding.toBits_mono 52 (show 8 * one - take ≤ 8 * one by omega)
  rw [toBits_mul_one (by omega)] at hmono
  rw [shift]
  exact (Nat.div_le_div_right hmono).trans_eq (Nat.mul_div_cancel 8 JsNumber.one_pos)

theorem shift_zero : shift 0 = 8 := by
  rw [shift, Nat.sub_zero, toBits_mul_one (by omega), Nat.mul_div_cancel 8 JsNumber.one_pos]

theorem shift_full : shift (8 * one) = 0 := by
  rw [shift, Nat.sub_self, Rounding.toBits_of_lt (by omega), Nat.zero_div]

/-- The high bits a mask keeps. -/
def kept (take : Nat) : Nat := 8 - shift take

theorem kept_le (take : Nat) : kept take ≤ 8 := by
  rw [kept]
  omega

/-- One byte compared under its mask. -/
theorem and_mask_iff (a b take : Nat) : (a &&& mask take) = (b &&& mask take) ↔
      (bits 8 a).take (kept take) = (bits 8 b).take (kept take) := by
  rw [mask]
  split
  · rename_i h
    have hkept : kept take = 0 := by
      rw [kept, h, shift_zero]
    simp [hkept]
  · rw [← and_mask_eq_iff (kept_le take), kept, Nat.sub_sub_self (shift_le take)]

/-! ## The loop -/

/-- The bits the masks of a whole loop keep. -/
def keptBits (remaining : Nat) : Nat := 8 * (remaining / (8 * one)) + kept (remaining % (8 * one))

variable {remaining : Nat}

theorem keptBits_of_lt (h : remaining < 8 * one) : keptBits remaining = kept remaining := by
  rw [keptBits, Nat.div_eq_of_lt h, Nat.mod_eq_of_lt h]
  omega

theorem keptBits_of_le (h : 8 * one ≤ remaining) :
    keptBits remaining = 8 + keptBits (remaining - 8 * one) := by
  have hpos : 0 < 8 * one := Nat.mul_pos (by omega) JsNumber.one_pos
  rw [keptBits, keptBits, Nat.mod_eq_sub_mod h, Nat.div_eq_sub_div hpos h]
  omega

theorem kept_zero : kept 0 = 0 := by
  rw [kept, shift_zero]

theorem keptBits_zero : keptBits 0 = 0 := by
  rw [keptBits_of_lt (Nat.mul_pos (by omega) JsNumber.one_pos), kept_zero]

theorem keptBits_mul (n : Nat) : keptBits (n * one) = n := by
  have hshift : ∀ r ≤ 8, shift (r * one) = 8 - r := by
    intro r hr
    rw [shift, ← Nat.sub_mul, toBits_mul_one (by omega), Nat.mul_div_cancel _ JsNumber.one_pos]
  rw [keptBits, Nat.mul_div_mul_right _ _ JsNumber.one_pos, Nat.mul_mod_mul_right, kept,
    hshift _ (by omega)]
  omega

variable {as bs : List Nat}

/-- **The loop compares the bits the masks keep.** -/
theorem sameBytes_iff (hlen : as.length = bs.length) (remaining : Nat) :
    sameBytes as bs remaining = true ↔ (as.flatMap (bits 8)).take (keptBits remaining) =
        (bs.flatMap (bits 8)).take (keptBits remaining) := by
  induction as generalizing bs remaining with
  | nil =>
    obtain rfl := length_eq_zero_iff.mp hlen.symm
    simp [sameBytes]
  | cons a as ih =>
    obtain ⟨b, bs, rfl⟩ := exists_cons_of_length_eq_add_one hlen.symm
    have hlen' : as.length = bs.length := by simpa using hlen
    have happend : ∀ n : Nat, ∀ cs : List Nat, ∀ k, k ≤ 8 →
        ((n :: cs).flatMap (bits 8)).take k = (bits 8 n).take k := by
      intro n cs k hk
      rw [flatMap_cons, take_append_of_le_length (by rwa [length_bits])]
    rw [sameBytes, Bool.and_eq_true, decide_eq_true_eq, and_mask_iff, ih hlen']
    rcases Nat.lt_or_ge remaining (8 * one) with hlt | hge
    · rw [min_eq_right hlt.le, Nat.sub_self, keptBits_zero, keptBits_of_lt hlt,
        happend a as _ (kept_le _), happend b bs _ (kept_le _)]
      simp
    · have hfull : kept (8 * one) = 8 := by rw [kept, shift_full]
      have hwhole : ∀ n : Nat, (bits 8 n).take 8 = bits 8 n := fun n =>
        take_of_length_le (length_bits 8 n).le
      rw [min_eq_left hge, keptBits_of_le hge, hfull, hwhole, hwhole, flatMap_cons,
        flatMap_cons, take_append, take_append, length_bits, length_bits]
      have hover : ∀ n m : Nat, (bits 8 n).take (8 + m) = bits 8 n := fun n m =>
        take_of_length_le (by rw [length_bits]; omega)
      rw [hover, hover, Nat.add_sub_cancel_left]
      constructor
      · rintro ⟨hbyte, hrest⟩
        rw [hbyte, hrest]
      · intro h
        exact append_inj h (by rw [length_bits, length_bits])

/-! ## What `ipInCidr` compares -/

/-- The bits of `width` the suffix makes the loop compare. -/
def suffixBits (suffix : JsString) (width : Nat) : Option Nat :=
  ((number suffix).filter fun n => 0 ≤ n && n ≤ ((width * one : Nat) : Int)).map fun n => keptBits n.toNat

/-- `ipInCidr` over what is read of the two addresses. -/
def Compared (ip cidr : JsString) : Bool :=
  match cutCidr cidr with
  | some (range, suffix) =>
    sameBits (readAddress (normalize ip)) (readAddress range) (suffixBits suffix)
  | none => false

variable {ip : JsString}

variable {bytes : List Nat}

theorem ipv4ToBytes_length (h : ipv4ToBytes ip = some bytes) : bytes.length = 4 := by
  simp only [ipv4ToBytes, ite_none_right_eq_some, Bool.and_eq_true, decide_eq_true_eq,
    some.injEq] at h
  obtain ⟨⟨hlen, -⟩, rfl⟩ := h
  rwa [length_map]

theorem length_flatten_mapM {hs : List JsString} {bytes : List (List Nat)}
    (h : hs.mapM hextetBytes = some bytes) : bytes.flatten.length = 2 * hs.length := by
  induction hs generalizing bytes with
  | nil =>
    obtain rfl := some.inj h
    rfl
  | cons x xs ih =>
    simp only [List.mapM_cons, Option.bind_eq_bind, Option.bind_eq_some_iff, Option.pure_def,
      some.injEq] at h
    obtain ⟨b, hb, bs, hbs, rfl⟩ := h
    rw [hextetBytes, ite_none_right_eq_some] at hb
    rw [flatten_cons, length_append, ih hbs, ← some.inj hb.2, length_cons]
    simp
    omega

theorem ipv6ToBytes_length (h : ipv6ToBytes ip = some bytes) : bytes.length = 16 := by
  simp only [ipv6ToBytes, ite_none_left_eq_some, map_eq_some_iff] at h
  obtain ⟨-, -, hlen, parts, hparts, rfl⟩ := h
  rw [length_flatten_mapM hparts]
  omega

theorem isIP_cases (text : JsString) : isIP text = 0 ∨ isIP text = 4 ∨ isIP text = 6 := by
  rw [isIP]
  split
  · exact .inr (.inl rfl)
  · split <;> split <;> simp

theorem sameBits_some (x y : List Bool) (n : Nat → Option Nat) : sameBits (some x) (some y) n =
      (x.length = y.length && (n x.length).any fun k => k ≤ x.length && x.take k = y.take k) := rfl

theorem sameBits_eq_true {x y : Option (List Bool)} {n : Nat → Option Nat} :
    sameBits x y n = true ↔ ∃ x' y' k, x = some x' ∧ y = some y' ∧ x'.length = y'.length ∧
      n x'.length = some k ∧ k ≤ x'.length ∧ x'.take k = y'.take k := by
  constructor
  · intro h
    cases x with
    | none => cases h
    | some x =>
      cases y with
      | none => cases h
      | some y =>
        simp only [sameBits_some, Bool.and_eq_true, Option.any_eq_true, decide_eq_true_eq] at h
        obtain ⟨hlen, k, hk, hle, htake⟩ := h
        exact ⟨x, y, k, rfl, rfl, hlen, hk, hle, htake⟩
  · rintro ⟨x', y', k, rfl, rfl, hlen, hk, hle, htake⟩
    simp only [sameBits_some, hk, Bool.and_eq_true, any_some, decide_eq_true_eq]
    exact ⟨hlen, hle, htake⟩

variable {x : List Bool} {text : JsString}

theorem length_readAddress (h : readAddress text = some x) :
    isIP text = 4 ∧ x.length = 32 ∨ isIP text = 6 ∧ x.length = 128 := by
  obtain ⟨bytes, hbytes, rfl⟩ := map_eq_some_iff.mp h
  rw [length_flatMap_bits]
  by_cases h4 : isIP text = 4
  · rw [if_pos h4] at hbytes
    exact .inl ⟨h4, by rw [ipv4ToBytes_length hbytes]⟩
  · rw [if_neg h4] at hbytes
    by_cases h6 : isIP text = 6
    · rw [if_pos h6] at hbytes
      exact .inr ⟨h6, by rw [ipv6ToBytes_length hbytes]⟩
    · rw [if_neg h6] at hbytes
      cases hbytes

theorem keptBits_le {n : Nat} (h : n ≤ 8 * k * one) : keptBits n ≤ 8 * k := by
  have hpos : 0 < 8 * one := Nat.mul_pos (by omega) JsNumber.one_pos
  have hscale : 8 * k * one = k * (8 * one) := by ring
  rw [hscale] at h
  have hq : n / (8 * one) ≤ k := Nat.div_le_of_le_mul (by rwa [Nat.mul_comm])
  rcases Nat.lt_or_eq_of_le hq with hlt | heq
  · have hkept := kept_le (n % (8 * one))
    rw [keptBits]
    omega
  · -- all the bytes are full, and nothing is left over
    have hlow := Nat.div_mul_le_self n (8 * one)
    rw [heq] at hlow
    have hn : n = 8 * k * one := by omega
    rw [hn, keptBits_mul]

variable {suffix : JsString}

theorem loop_iff (hlen : as.length = bs.length) {n : Int} (hn : number suffix = some n) :
    (if n < 0 || ((as.length * 8 * one : Nat) : Int) < n then false
      else sameBytes as bs n.toNat) = true ↔
      ∃ k, suffixBits suffix (as.flatMap (bits 8)).length = some k ∧
        k ≤ (as.flatMap (bits 8)).length ∧
          (as.flatMap (bits 8)).take k = (bs.flatMap (bits 8)).take k := by
  have hwidth : as.length * 8 * one = 8 * as.length * one := by ring
  rw [length_flatMap_bits, suffixBits, hn, hwidth]
  by_cases hout : n < 0 ∨ ((8 * as.length * one : Nat) : Int) < n
  · rw [if_pos (by simpa using hout), filter_some, if_neg]
    · simp
    · simp only [Bool.and_eq_true, decide_eq_true_eq]
      omega
  · rw [if_neg (by simpa using hout), filter_some, if_pos]
    · rw [sameBytes_iff hlen, map_some]
      have hle : keptBits n.toNat ≤ 8 * as.length := keptBits_le (by omega)
      constructor
      · exact fun h => ⟨_, rfl, hle, h⟩
      · rintro ⟨k, hk, -, htake⟩
        rwa [some.inj hk]
    · simp only [Bool.and_eq_true, decide_eq_true_eq]
      omega

def bytesOf (version : Nat) (text : JsString) : Option (List Nat) :=
  if version = 4 then ipv4ToBytes text else ipv6ToBytes text

theorem readAddress_of_isIP (h : isIP text ≠ 0) :
    readAddress text = (bytesOf (isIP text) text).map fun bytes => bytes.flatMap (bits 8) := by
  rw [readAddress, bytesOf]
  rcases isIP_cases text with h0 | h4 | h6
  · exact absurd h0 h
  · rw [if_pos h4, if_pos h4]
  · rw [if_neg (by omega), if_pos h6, if_neg (by omega)]

theorem bytesOf_length {version : Nat}
    (h : bytesOf version text = some bytes) : bytes.length = if version = 4 then 4 else 16 := by
  rw [bytesOf] at h
  split at h
  · rename_i h4
    rw [if_pos h4, ipv4ToBytes_length h]
  · rename_i h4
    rw [if_neg h4, ipv6ToBytes_length h]

/-- **The bits that decide**: those the masks keep, of what is read of both addresses. -/
theorem ipInCidr_eq (ip cidr : JsString) : ipInCidr ip cidr = Compared ip cidr := by
  rw [ipInCidr, Compared, cutCidr]
  cases lastIndexOf (cu '/') cidr with
  | none => rfl
  | some slash =>
    simp only [map_some]
    generalize normalize ip = a
    generalize cidr.take slash = range
    generalize cidr.drop (slash + 1) = suffix
    rw [Bool.eq_iff_iff, sameBits_eq_true]
    cases hnumber : number suffix with
    | none =>
      refine ⟨fun h => by (cases h), ?_⟩
      rintro ⟨x, y, k, -, -, -, hk, -⟩
      rw [suffixBits, hnumber] at hk
      cases hk
    | some n =>
      simp only
      by_cases hversion : isIP a = 0 ∨ isIP a ≠ isIP range
      · rw [if_pos (by simpa using hversion)]
        refine ⟨fun h => by (cases h), ?_⟩
        rintro ⟨x, y, k, hx, hy, hlen, -⟩
        have hxl := length_readAddress hx
        have hyl := length_readAddress hy
        omega
      · rw [if_neg (by simpa using hversion)]
        rw [not_or, not_not] at hversion
        obtain ⟨hzero, hsame⟩ := hversion
        rw [readAddress_of_isIP hzero, readAddress_of_isIP (hsame ▸ hzero), ← hsame]
        change (match bytesOf (isIP a) a, bytesOf (isIP a) range with
          | some ipBytes, some rangeBytes =>
            if n < 0 || ((ipBytes.length * 8 * one : Nat) : Int) < n then false
            else sameBytes ipBytes rangeBytes n.toNat
          | _, _ => false) = true ↔ _
        cases ha : bytesOf (isIP a) a with
        | none => simp
        | some as =>
          cases hb : bytesOf (isIP a) range with
          | none => simp
          | some bs =>
            have hlen : as.length = bs.length := (bytesOf_length ha).trans (bytesOf_length hb).symm
            simp only [map_some]
            rw [loop_iff hlen hnumber]
            constructor
            · rintro ⟨k, hk, hle, htake⟩
              exact ⟨_, _, k, rfl, rfl, by rw [length_flatMap_bits, length_flatMap_bits, hlen], hk,
                hle, htake⟩
            · rintro ⟨x, y, k, hx, hy, -, hk, hle, htake⟩
              obtain rfl := some.inj hx
              obtain rfl := some.inj hy
              exact ⟨k, hk, hle, htake⟩

/-! ## Mapped addresses -/

theorem splitGo_of_not_mem (h : cu ':' ∉ text) : splitGo (js "::") 0 text = [text] := by
  induction text with
  | nil => rfl
  | cons x text ih =>
    rw [mem_cons, not_or] at h
    have hsep : ¬js "::" <+: x :: text := by
      rintro ⟨rest, hrest⟩
      exact h.1 (List.cons.inj hrest).1
    rw [splitGo, if_neg hsep, ih h.2]
    rfl

/-- A single colon is no separator. -/
theorem splitGo_of_single {pre : JsString} (hpre : cu ':' ∉ pre) (h : cu ':' ∉ text) :
    splitGo (js "::") 0 (pre ++ cu ':' :: text) = [pre ++ cu ':' :: text] := by
  induction pre with
  | nil =>
    have hsep : ¬js "::" <+: cu ':' :: text := by
      rintro ⟨rest, hrest⟩
      have htext : cu ':' :: rest = text := (List.cons.inj hrest).2
      exact h (htext ▸ mem_cons_self)
    rw [nil_append, splitGo, if_neg hsep, splitGo_of_not_mem h]
    rfl
  | cons x pre ih =>
    rw [mem_cons, not_or] at hpre
    have hsep : ¬js "::" <+: x :: (pre ++ cu ':' :: text) := by
      rintro ⟨rest, hrest⟩
      exact hpre.1 (List.cons.inj hrest).1
    rw [cons_append, splitGo, if_neg hsep, ih hpre.2]
    rfl

theorem eq_of_toLowerCase (h : toLowerCase text = js "::ffff:") :
    ∃ pre, text = cu ':' :: cu ':' :: (pre ++ [cu ':']) ∧ cu ':' ∉ pre ∧ isHextet pre = true ∧
      hexNumber pre = 65535 := by
  have hcolon : ∀ c : CodeUnit, (if cu 'A' ≤ c && c ≤ cu 'Z' then c + 32 else c) = cu ':' →
      c = cu ':' := by
    intro c hc
    split at hc
    · rename_i hrange
      rw [Bool.and_eq_true, decide_eq_true_eq, decide_eq_true_eq] at hrange
      obtain rfl : c = cu ':' - 32 := by rw [← hc]; exact (UInt16.add_sub_cancel c 32).symm
      exact absurd hrange (by decide)
    · exact hc
  have hf : ∀ c : CodeUnit, (if cu 'A' ≤ c && c ≤ cu 'Z' then c + 32 else c) = cu 'f' →
      c = cu 'f' ∨ c = cu 'F' := by
    intro c hc
    split at hc
    · exact .inr (by rw [← UInt16.add_sub_cancel c 32, hc]; decide)
    · exact .inl hc
  obtain ⟨c1, t1, rfl, h1, ht1⟩ := map_eq_cons_iff.mp h
  obtain ⟨c2, t2, rfl, h2, ht2⟩ := map_eq_cons_iff.mp ht1
  obtain ⟨c3, t3, rfl, h3, ht3⟩ := map_eq_cons_iff.mp ht2
  obtain ⟨c4, t4, rfl, h4, ht4⟩ := map_eq_cons_iff.mp ht3
  obtain ⟨c5, t5, rfl, h5, ht5⟩ := map_eq_cons_iff.mp ht4
  obtain ⟨c6, t6, rfl, h6, ht6⟩ := map_eq_cons_iff.mp ht5
  obtain ⟨c7, t7, rfl, h7, ht7⟩ := map_eq_cons_iff.mp ht6
  obtain rfl := map_eq_nil_iff.mp ht7
  obtain rfl := hcolon c1 h1
  obtain rfl := hcolon c2 h2
  obtain rfl := hcolon c7 h7
  refine ⟨[c3, c4, c5, c6], rfl, ?_⟩
  rcases hf c3 h3 with rfl | rfl <;> rcases hf c4 h4 with rfl | rfl <;>
    rcases hf c5 h5 with rfl | rfl <;> rcases hf c6 h6 with rfl | rfl <;> decide

theorem bits_pair (ha : a ≤ 255) (hb : b ≤ 255) : bits 16 (256 * a + b) = bits 8 a ++ bits 8 b := by
  have hhigh : (256 * a + b) >>> 8 &&& 0xff = a := by
    rw [Nat.shiftRight_eq_div_pow, show 0xff = 2 ^ 8 - 1 from rfl, Nat.and_two_pow_sub_one_eq_mod]
    omega
  have hlow : (256 * a + b) &&& 0xff = b := by
    rw [show 0xff = 2 ^ 8 - 1 from rfl, Nat.and_two_pow_sub_one_eq_mod]
    omega
  rw [bits_two_bytes, hhigh, hlow]

theorem quadGroups_bits (h : isIPv4 text = true) : (quadGroups text).length = 2 ∧
      some ((quadGroups text).flatMap (bits 16)) = address text := by
  rw [address, if_pos h, quadGroups]
  simp only [isIPv4, Bool.and_eq_true, decide_eq_true_eq, List.all_eq_true] at h
  obtain ⟨hlen, hall⟩ := h
  generalize split text [cu '.'] = parts at hlen hall
  obtain ⟨a, b, c, d, rfl⟩ := length_eq_four.mp hlen
  have hle : ∀ p ∈ [a, b, c, d], digitsValue p ≤ 255 := fun p hp => (isOctet_spec (hall p hp)).2
  simp only [List.mem_cons, List.not_mem_nil, or_false, forall_eq_or_imp, forall_eq] at hle
  obtain ⟨ha, hb, hc, hd⟩ := hle
  refine ⟨rfl, ?_⟩
  simp [bits_pair ha hb, bits_pair hc hd]

/-- **`::ffff:` in front of a dotted quad is its mapped address.** -/
theorem address_mapped {quad : JsString} (hpre : toLowerCase text = js "::ffff:")
    (hquad : isIPv4 quad = true) :
    address (text ++ quad) = (address quad).map (mappedBits ++ ·) := by
  obtain ⟨pre, rfl, hcolon, hhex, hnumber⟩ := eq_of_toLowerCase hpre
  have hno : cu ':' ∉ quad := by
    intro hin
    rcases mem_of_isIPv4 hquad hin with h | h <;> exact absurd h (by decide)
  have hnot : isIPv4 (cu ':' :: cu ':' :: (pre ++ [cu ':']) ++ quad) = false := by
    by_contra h
    rcases mem_of_isIPv4 (by simpa using h) (mem_cons_self) with h | h <;>
      exact absurd h (by decide)
  have hsplit : split (cu ':' :: cu ':' :: (pre ++ [cu ':']) ++ quad) (js "::") =
      [[], pre ++ cu ':' :: quad] := by
    have hrest := splitGo_of_single hcolon hno
    rw [split, cons_append, splitGo, if_pos ⟨pre ++ cu ':' :: quad, by simp; rfl⟩]
    change [] :: splitGo (js "::") 0 ((pre ++ [cu ':']) ++ quad) = _
    rw [append_assoc, singleton_append, hrest]
  have hfields : fields (pre ++ cu ':' :: quad) = [pre, quad] := by
    rw [fields, if_neg (by simp), split_append_unit, split_of_not_mem hcolon, split_of_not_mem hno]
    rfl
  have hnothex : isHextet quad = false := by
    by_contra h
    have hdot : cu '.' ∈ quad := by
      by_contra hdot
      rw [isIPv4_of_not_mem hdot] at hquad
      cases hquad
    have hall := (isHextet_spec (by simpa using h)).2.2
    rw [not_isHex_of_mem (by decide) hdot] at hall
    cases hall
  obtain ⟨hlen, hbits⟩ := quadGroups_bits hquad
  have hgroups : groupsOf [pre, quad] = some (65535 :: quadGroups quad) := by
    simp only [groupsOf, hhex, hnothex, hquad, hnumber, if_true, Bool.false_eq_true, if_false,
      map_some]
  have height : groups6 (cu ':' :: cu ':' :: (pre ++ [cu ':']) ++ quad) =
      some ([0, 0, 0, 0, 0, 65535] ++ quadGroups quad) := by
    rw [groups6, hsplit]
    simp only [hfields, hgroups, bind_some]
    simp [fields, hlen]
  have hmapped : ([0, 0, 0, 0, 0, 65535] : List Nat).flatMap (bits 16) = mappedBits := by decide
  rw [address, hnot, height, ← hbits]
  simp only [Bool.false_eq_true, if_false, map_some, flatMap_append, hmapped]

/-! ## Where the bits compared are the range -/

/-- The forms that are read as they are meant: a plain prefix length, no dotted quad behind groups,
and an IPv4-mapped address only as `::ffff:` with a dotted quad. -/
structure PlainForms (ip range suffix : JsString) : Prop where
  suffix : isNumeric suffix = true
  range : isIPv4 range = true ∨ cu '.' ∉ range
  ip : isIPv4 (normalize ip) = true ∨ cu '.' ∉ normalize ip ∧
    ∀ x, address (normalize ip) = some x → isMapped x = false

theorem readAddress_eq_address (h : isIPv4 text = true ∨ cu '.' ∉ text) :
    readAddress text = address text := by
  rcases h with hquad | hdot
  · exact readAddress_of_isIPv4 hquad
  · exact readAddress_eq hdot

theorem form_of_readAddress (h : readAddress text = some x) :
    isIPv4 text = true ∨ cu '.' ∉ text := by
  by_contra hnot
  rw [not_or, not_not] at hnot
  rw [readAddress_eq_none hnot.2 (by simpa using hnot.1)] at h
  cases h

theorem normalize_cases (ip : JsString) :
    normalize ip = trim ip ∨ cu '.' ∈ normalize ip ∧ ∃ pre, toLowerCase pre = js "::ffff:" ∧
      trim ip = pre ++ normalize ip := by
  rw [normalize]
  split
  · rename_i h
    obtain ⟨hstart, hdotted⟩ := Bool.and_eq_true_iff.mp h
    refine .inr ⟨?_, (trim ip).take 7, ?_, (take_append_drop 7 _).symm⟩
    · by_contra hdot
      rw [isDotted, split_of_not_mem hdot] at hdotted
      cases hdotted
    · rw [startsWith, decide_eq_true_eq, prefix_iff_eq_take] at hstart
      exact (map_take ..).trans hstart.symm
  · exact .inl rfl

theorem length_counted (h : isMapped x = true) : (counted x).length = 32 := by
  simp only [isMapped, Bool.and_eq_true, decide_eq_true_eq] at h
  rw [counted, if_pos (by simp [isMapped, h]), length_drop, h.1]

theorem counted_of_length (h : x.length = 32) : counted x = x := by
  rw [counted, if_neg]
  simp [isMapped, h]

theorem counted_mapped (h : x.length = 32) : counted (mappedBits ++ x) = x := by
  have hlen : mappedBits.length = 96 := by decide
  rw [counted, if_pos]
  · rw [← hlen, drop_left]
  · simp only [isMapped, Bool.and_eq_true, decide_eq_true_eq, length_append, hlen, h]
    exact ⟨trivial, by rw [← hlen, take_left]⟩

/-- **The address is read as what it counts as.** -/
theorem readAddress_normalize (h : isIPv4 (normalize ip) = true ∨
    cu '.' ∉ normalize ip ∧ ∀ x, address (normalize ip) = some x → isMapped x = false) :
    readAddress (normalize ip) = (address (trim ip)).map counted := by
  rw [readAddress_eq_address (h.imp_right And.left)]
  rcases normalize_cases ip with heq | ⟨hdot, pre, hpre, htrim⟩
  · rw [← heq]
    cases hx : address (normalize ip) with
    | none => rfl
    | some x =>
      have hcounted : counted x = x := by
        rcases h with hquad | ⟨-, hmapped⟩
        · exact counted_of_length (length_address_of_isIPv4 hquad hx)
        · rw [counted, hmapped x hx]
          rfl
      rw [map_some, hcounted]
  · have hquad := h.resolve_right fun hno => hno.1 hdot
    rw [htrim, address_mapped hpre hquad, Option.map_map]
    cases hx : address (normalize ip) with
    | none => rfl
    | some x =>
      rw [map_some, Function.comp_apply, counted_mapped (length_address_of_isIPv4 hquad hx)]

/-- A plain prefix length is read as it stands. -/
theorem suffixBits_plain (h : isNumeric suffix = true) {w : Nat} (hw : w ≤ 128) :
    suffixBits suffix w = some k ∧ k ≤ w ↔ plainBits suffix = some k ∧ k ≤ w := by
  rw [plainBits, if_pos h, suffixBits]
  rcases Nat.lt_or_ge (digitsValue suffix) (2 ^ 53) with hlt | hge
  · rw [number_digits h hlt, filter_some]
    generalize digitsValue suffix = n
    have hscale : ((n * one : Nat) : Int) ≤ ((w * one : Nat) : Int) ↔ n ≤ w :=
      Int.ofNat_le.trans (Nat.mul_le_mul_right_iff JsNumber.one_pos)
    by_cases hle : n ≤ w
    · rw [if_pos]
      · rw [map_some, Int.toNat_natCast, keptBits_mul]
      · rw [Bool.and_eq_true, decide_eq_true_eq, decide_eq_true_eq]
        exact ⟨Int.natCast_nonneg _, hscale.mpr hle⟩
    · rw [if_neg]
      · simp only [map_none, reduceCtorEq, false_and, some.injEq, false_iff, not_and]
        omega
      · rw [Bool.and_eq_true, decide_eq_true_eq, decide_eq_true_eq]
        exact fun hn => hle (hscale.mp hn.2)
  · have hnone : ((number suffix).filter fun n => 0 ≤ n && n ≤ ((w * one : Nat) : Int)) = none := by
      refine filter_eq_none_iff.mpr fun u hu hin => ?_
      rw [Bool.and_eq_true, decide_eq_true_eq, decide_eq_true_eq] at hin
      have hlow := (le_of_number_digits h hge hu).trans hin.2
      have hw' := Nat.le_of_mul_le_mul_right (Int.ofNat_le.mp hlow) JsNumber.one_pos
      omega
    rw [hnone]
    simp only [map_none, reduceCtorEq, false_and, some.injEq, false_iff, not_and]
    omega

variable {range : JsString}

/-- **Plain forms are compared as the range says.** -/
theorem sameBits_of_plainForms (h : PlainForms ip range suffix) :
    sameBits (readAddress (normalize ip)) (readAddress range) (suffixBits suffix) =
      sameBits ((address (trim ip)).map counted) (address range) fun _ => plainBits suffix := by
  rw [← readAddress_normalize h.ip, ← readAddress_eq_address h.range, Bool.eq_iff_iff,
    sameBits_eq_true, sameBits_eq_true]
  have hwidth : ∀ x, readAddress (normalize ip) = some x → x.length ≤ 128 := by
    intro x hx
    rcases length_readAddress hx with ⟨-, hlen⟩ | ⟨-, hlen⟩ <;> omega
  constructor
  · rintro ⟨x, y, k, hx, hy, hlen, hk, hle, htake⟩
    obtain ⟨hk', -⟩ := (suffixBits_plain h.suffix (hwidth x hx)).mp ⟨hk, hle⟩
    exact ⟨x, y, k, hx, hy, hlen, hk', hle, htake⟩
  · rintro ⟨x, y, k, hx, hy, hlen, hk, hle, htake⟩
    obtain ⟨hk', -⟩ := (suffixBits_plain h.suffix (hwidth x hx)).mpr ⟨hk, hle⟩
    exact ⟨x, y, k, hx, hy, hlen, hk', hle, htake⟩

/-- An address in the range that is also let in is written in a plain form. -/
theorem plainForms_of_both
    (hread : sameBits (readAddress (normalize ip)) (readAddress range) (suffixBits suffix) = true)
    (hin : sameBits ((address (trim ip)).map counted) (address range)
      (fun _ => plainBits suffix) = true) : PlainForms ip range suffix := by
  obtain ⟨x, y, -, hx, hy, hlen, -⟩ := sameBits_eq_true.mp hread
  obtain ⟨x', y', k, hx', hy', hlen', hk, -⟩ := sameBits_eq_true.mp hin
  have hrange := form_of_readAddress hy
  refine ⟨?_, hrange, ?_⟩
  · by_contra hnot
    rw [plainBits, if_neg hnot] at hk
    cases hk
  · rcases form_of_readAddress hx with hquad | hdot
    · exact .inl hquad
    · refine .inr ⟨hdot, fun z hz => Bool.eq_false_iff.mpr fun hmapped => ?_⟩
      rcases normalize_cases ip with heq | ⟨hdot', -⟩
      · -- a mapped address counts as 32 bits and is read as 128
        rw [← heq, hz, map_some] at hx'
        rw [readAddress_eq hdot, hz] at hx
        rw [readAddress_eq_address hrange, hy'] at hy
        have hcounted := length_counted hmapped
        rw [some.inj hx'] at hcounted
        simp only [isMapped, Bool.and_eq_true, decide_eq_true_eq] at hmapped
        rw [← some.inj hx, hmapped.1, ← some.inj hy] at hlen
        omega
      · exact hdot hdot'

/-- **`ipInCidr` is the range exactly where the texts have plain forms, or the bits differ both as
they are read and as they are meant.** -/
theorem ipInCidr_iff (ip cidr : JsString) :
    ipInCidr ip cidr = InCidr ip cidr ↔
      ∀ range suffix, cutCidr cidr = some (range, suffix) → PlainForms ip range suffix ∨
        sameBits (readAddress (normalize ip)) (readAddress range) (suffixBits suffix) = false ∧
          sameBits ((address (trim ip)).map counted) (address range)
            (fun _ => plainBits suffix) = false := by
  rw [ipInCidr_eq, Compared, InCidr]
  cases hcut : cutCidr cidr with
  | none => simp
  | some cut =>
    obtain ⟨range, suffix⟩ := cut
    simp only [Option.some.injEq, Prod.mk.injEq]
    constructor
    · rintro heq range suffix ⟨rfl, rfl⟩
      by_cases hin : sameBits ((address (trim ip)).map counted) (address range)
          (fun _ => plainBits suffix) = true
      · exact .inl (plainForms_of_both (heq.trans hin) hin)
      · rw [Bool.not_eq_true] at hin
        exact .inr ⟨heq.trans hin, hin⟩
    · intro h
      rcases h range suffix ⟨rfl, rfl⟩ with hplain | ⟨hread, hin⟩
      · exact sameBits_of_plainForms hplain
      · rw [hread, hin]

/-- An empty suffix lets every address in. -/
theorem ipInCidr_noSuffix :
    ipInCidr (js "203.0.113.7") (js "192.30.252.0/") = true ∧
      InCidr (js "203.0.113.7") (js "192.30.252.0/") = false := by
  decide +kernel

end Aoox.CidrRanges
