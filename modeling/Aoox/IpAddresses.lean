import Aoox.ImageReferences
import Aoox.JsNumber

/-! # IP addresses as text and as bits

An address is 32 or 128 bits.  `address` reads it from text: a dotted quad of
numbers without leading zeros, or groups of hexadecimal digits, `::` once for a run
of zero groups, a dotted quad possibly in the place of the last two groups.
`ipv4ToBytes` and `ipv6ToBytes` of the allowlist read the same bits, but know no
dotted quad behind groups (`readAddress_eq`, `readAddress_eq_none`).
-/
open List Option
namespace Aoox.IpAddresses

open JsString FieldChecks ImageTags JsNumber

/-! ## Addresses -/

/-- The `w` low bits of `n`, the highest first. -/
def bits (w n : Nat) : List Bool := (List.range w).map fun i => n.testBit (w - 1 - i)

/-- `0` to `255` without leading zeros. -/
def isOctet (part : JsString) : Bool := isNumber part && digitsValue part ≤ 255

def isIPv4 (text : JsString) : Bool :=
  (split text [cu '.']).length = 4 && (split text [cu '.']).all isOctet

/-- `parseInt(digits || '0', 16)`. -/
def hexNumber (digits : JsString) : Nat := digits.foldl (fun n c => 16 * n + (hexValue c).getD 0) 0

def isHex (c : CodeUnit) : Bool := (hexValue c).isSome

/-- One to four hexadecimal digits. -/
def isHextet (field : JsString) : Bool := field ≠ [] && field.length ≤ 4 && field.all isHex

def quadGroups (text : JsString) : List Nat :=
  match (split text [cu '.']).map digitsValue with
  | [a, b, c, d] => [256 * a + b, 256 * c + d]
  | _ => []

/-- Groups, the last two possibly as a dotted quad. -/
def groupsOf : List JsString → Option (List Nat)
  | [] => some []
  | [last] =>
    if isHextet last then some [hexNumber last]
    else if isIPv4 last then some (quadGroups last)
    else none
  | field :: fields =>
    if isHextet field then (groupsOf fields).map (hexNumber field :: ·) else none

/-- The fields of one side of `::`. -/
def fields (text : JsString) : List JsString := if text = [] then [] else split text [cu ':']

/-- The eight groups of an IPv6 address. -/
def groups6 (text : JsString) : Option (List Nat) :=
  match split text (js "::") with
  | [whole] => (groupsOf (fields whole)).filter (·.length = 8)
  | [head, tail] =>
    if (fields head).all isHextet then
      (groupsOf (fields tail)).bind fun t =>
        let h := (fields head).map hexNumber
        if h.length + t.length < 8 then
          some (h ++ List.replicate (8 - h.length - t.length) 0 ++ t)
        else none
    else none
  | _ => none

/-- The bits of a valid address. -/
def address (text : JsString) : Option (List Bool) :=
  if isIPv4 text then some (((split text [cu '.']).map digitsValue).flatMap (bits 8))
  else (groups6 text).map fun groups => groups.flatMap (bits 16)

/-- The characters of a zone behind `%`. -/
def isZoneUnit (c : CodeUnit) : Bool := isLetter c || isDigit c || (js "-.:").contains c

/-- `isIP(text)` of Node: an IPv6 address may carry a zone. -/
def isIP (text : JsString) : Nat :=
  if isIPv4 text then 4
  else
    match cutFirst (cu '%') text with
    | (plain, none) => if (groups6 plain).isSome then 6 else 0
    | (plain, some zone) =>
      if (groups6 plain).isSome && zone ≠ [] && zone.all isZoneUnit then 6 else 0

/-! ## The readers of the allowlist -/

/-- `p >= 0 && p <= 255`. -/
def inByte (p : Int) : Bool := 0 ≤ p && p ≤ 255 * (one : Int)

/-- What the operators on bits see of a number. -/
def wholePart (p : Int) : Nat := p.toNat / one

/-- The numbers between the dots; the mask loop takes their whole part. -/
def ipv4ToBytes (ip : JsString) : Option (List Nat) :=
  let parts := (split ip [cu '.']).map number
  if parts.length = 4 && parts.all (fun p => p.any inByte) then
    some (parts.map fun p => wholePart (p.getD 0))
  else none

/-- Up to four hexadecimal digits, as two bytes. -/
def hextetBytes (h : JsString) : Option (List Nat) :=
  if h.length ≤ 4 && h.all isHex then
    some [hexNumber h >>> 8 &&& 0xff, hexNumber h &&& 0xff]
  else none

def ipv6ToBytes (ip : JsString) : Option (List Nat) :=
  let halves := split ip (js "::")
  if 2 < halves.length then none
  else
    let head := fields (halves.headD [])
    let tail := if halves.length = 2 then fields (halves.getD 1 []) else []
    if halves.length = 2 && 8 < head.length + tail.length then none
    else
      let hextets :=
        if halves.length = 2 then
          head ++ List.replicate (8 - head.length - tail.length) (js "0") ++ tail
        else head
      if hextets.length ≠ 8 then none else (hextets.mapM hextetBytes).map List.flatten

/-- The bits the allowlist compares. -/
def readAddress (text : JsString) : Option (List Bool) :=
  (if isIP text = 4 then ipv4ToBytes text else if isIP text = 6 then ipv6ToBytes text else none).map
    fun bytes => bytes.flatMap (bits 8)

theorem length_bits (w n : Nat) : (bits w n).length = w := by simp [bits]

theorem length_flatMap_bits (w : Nat) (ns : List Nat) :
    (ns.flatMap (bits w)).length = w * ns.length := by
  induction ns with
  | nil => simp
  | cons n ns ih =>
    rw [flatMap_cons, length_append, length_bits, ih, length_cons]
    ring

/-- The bits of a number are those of its two halves. -/
theorem bits_two_bytes (n : Nat) :
    bits 16 n = bits 8 (n >>> 8 &&& 0xff) ++ bits 8 (n &&& 0xff) := by
  refine ext_getElem (by simp [length_bits]) fun i hi _ => ?_
  rw [length_bits] at hi
  have hmask : ∀ j, Nat.testBit 0xff j = decide (j < 8) := fun j => Nat.testBit_two_pow_sub_one 8 j
  rw [getElem_append]
  split
  · rename_i hlt
    rw [length_bits] at hlt
    simp only [bits, getElem_map, getElem_range, Nat.testBit_and, Nat.testBit_shiftRight, hmask]
    have hsum : 8 + (8 - 1 - i) = 16 - 1 - i := by omega
    simp [hsum]
    omega
  · rename_i hge
    rw [length_bits] at hge
    simp only [bits, getElem_map, getElem_range, Nat.testBit_and, hmask]
    have hsum : 8 - 1 - (i - 8) = 16 - 1 - i := by omega
    simp [hsum]
    omega

/-! ## Octets -/

theorem isOctet_spec {part : JsString} (h : isOctet part = true) :
    isNumeric part = true ∧ digitsValue part ≤ 255 := by
  simp only [isOctet, isNumber, Bool.and_eq_true, decide_eq_true_eq] at h
  exact ⟨h.1.1, h.2⟩

theorem number_octet {part : JsString} (h : isOctet part = true) :
    number part = some ((digitsValue part * one : Nat) : Int) := by
  obtain ⟨hnum, hle⟩ := isOctet_spec h
  exact number_digits hnum (by omega)

theorem wholePart_mul (n : Nat) : wholePart ((n * one : Nat) : Int) = n := by
  rw [wholePart, Int.toNat_natCast]
  exact Nat.mul_div_cancel n one_pos

theorem inByte_mul {n : Nat} (h : n ≤ 255) : inByte ((n * one : Nat) : Int) = true := by
  rw [inByte, Bool.and_eq_true]
  refine ⟨decide_eq_true (Int.natCast_nonneg _), decide_eq_true ?_⟩
  generalize one = u
  exact_mod_cast Nat.mul_le_mul_right u h

variable {text : JsString}

theorem ipv4ToBytes_of_isIPv4 (h : isIPv4 text = true) :
    ipv4ToBytes text = some ((split text [cu '.']).map digitsValue) := by
  simp only [isIPv4, Bool.and_eq_true, decide_eq_true_eq, List.all_eq_true] at h
  obtain ⟨hlen, hall⟩ := h
  have hparts : (split text [cu '.']).map number =
      (split text [cu '.']).map fun part => some ((digitsValue part * one : Nat) : Int) :=
    map_congr_left fun part hpart => number_octet (hall part hpart)
  have hbytes : ((split text [cu '.']).map number).all (fun p => p.any inByte) = true := by
    rw [hparts, List.all_map, List.all_eq_true]
    intro part hpart
    rw [Function.comp_apply, any_some]
    exact inByte_mul (isOctet_spec (hall part hpart)).2
  simp only [ipv4ToBytes, hbytes, length_map, hlen, decide_true, Bool.and_self, if_true]
  rw [hparts, List.map_map]
  congr 1
  refine map_congr_left fun part _ => ?_
  rw [Function.comp_apply, getD_some, wholePart_mul]

theorem readAddress_of_isIPv4 (h : isIPv4 text = true) : readAddress text = address text := by
  rw [readAddress, isIP, address, if_pos h, if_pos h, if_pos rfl, ipv4ToBytes_of_isIPv4 h]
  rfl

theorem length_address_of_isIPv4 (h : isIPv4 text = true) {x : List Bool}
    (hx : address text = some x) : x.length = 32 := by
  rw [address, if_pos h] at hx
  obtain rfl := some.inj hx
  simp only [isIPv4, Bool.and_eq_true, decide_eq_true_eq] at h
  rw [length_flatMap_bits, length_map, h.1]

/-! ## Groups -/

variable {c : CodeUnit} {field : JsString}

theorem not_isHex_of_mem (h : hexValue c = none) (hc : c ∈ field) : field.all isHex = false := by
  rw [List.all_eq_false]
  exact ⟨c, hc, by simp [isHex, h]⟩

theorem isHextet_spec (h : isHextet field = true) :
    field ≠ [] ∧ field.length ≤ 4 ∧ field.all isHex = true := by
  simp only [isHextet, Bool.and_eq_true, decide_eq_true_eq] at h
  exact ⟨h.1.1, h.1.2, h.2⟩

/-- Every unit but the colons is in a field. -/
theorem exists_mem_fields (hc : c ∈ text) (hne : c ≠ cu ':') :
    ∃ field ∈ fields text, c ∈ field := by
  rw [fields, if_neg (ne_nil_of_mem hc)]
  exact exists_mem_split_unit hc hne

variable {fs : List JsString}

theorem groupsOf_spec {groups : List Nat} (h : groupsOf fs = some groups) :
    ∀ field ∈ fs, isHextet field = true ∨ isIPv4 field = true := by
  induction fs generalizing groups with
  | nil => simp
  | cons field rest ih =>
    cases rest with
    | nil =>
      rw [groupsOf] at h
      intro f hf
      obtain rfl := mem_singleton.mp hf
      by_cases hhex : isHextet f = true
      · exact .inl hhex
      · rw [if_neg hhex] at h
        by_cases hquad : isIPv4 f = true
        · exact .inr hquad
        · rw [if_neg hquad] at h
          cases h
    | cons next rest =>
      rw [groupsOf] at h
      · by_cases hhex : isHextet field = true
        · rw [if_pos hhex] at h
          obtain ⟨gs, hgs, -⟩ := map_eq_some_iff.mp h
          intro f hf
          rcases mem_cons.mp hf with rfl | hf
          · exact .inl hhex
          · exact ih hgs f hf
        · rw [if_neg hhex] at h
          cases h
      · exact cons_ne_nil _ _

/-- Without a dotted quad the groups are the numbers of the fields. -/
theorem groupsOf_eq (h : ∀ field ∈ fs, isIPv4 field = false) :
    groupsOf fs = if fs.all isHextet then some (fs.map hexNumber) else none := by
  induction fs with
  | nil => rfl
  | cons field rest ih =>
    have hrest := ih fun f hf => h f (mem_cons_of_mem _ hf)
    cases rest with
    | nil =>
      rw [groupsOf, h field mem_cons_self]
      simp
    | cons next rest =>
      rw [groupsOf, hrest]
      · rw [all_cons (a := field)]
        by_cases hhex : isHextet field = true
        · rw [if_pos hhex, hhex, Bool.true_and]
          split <;> rfl
        · rw [if_neg hhex, Bool.eq_false_iff.mpr hhex]
          rfl
      · exact cons_ne_nil _ _

theorem isIPv4_of_not_mem (h : cu '.' ∉ text) : isIPv4 text = false := by
  rw [isIPv4, split_of_not_mem h]
  rfl

/-- The pieces between double colons carry every other unit. -/
theorem exists_mem_split_double (hc : c ∈ text) (hne : c ≠ cu ':') :
    ∃ piece ∈ split text (js "::"), c ∈ piece := by
  have hgo : ∀ (text : JsString) (k : Nat), (∀ x ∈ text.take k, x = cu ':') → c ∈ text →
      ∃ piece ∈ splitGo (js "::") k text, c ∈ piece := by
    intro text
    induction text with
    | nil => exact fun k _ hc => by cases hc
    | cons x text ih =>
      intro k hskip hc
      cases k with
      | succ k =>
        rw [splitGo]
        refine ih k (fun y hy => hskip y (by simp [hy])) ?_
        rcases mem_cons.mp hc with rfl | hc
        · exact absurd (hskip c (by simp)) hne
        · exact hc
      | zero =>
        rw [splitGo]
        by_cases hsep : js "::" <+: x :: text
        · rw [if_pos hsep]
          obtain ⟨rest, hrest⟩ := hsep
          have hcons : cu ':' :: cu ':' :: rest = x :: text := hrest
          obtain ⟨hx, htext⟩ := List.cons.inj hcons
          have hmem : c ∈ text := by
            rcases mem_cons.mp hc with rfl | hc
            · exact absurd hx.symm hne
            · exact hc
          have hskip' : ∀ y ∈ text.take 1, y = cu ':' := by
            rw [← htext]
            simp
          obtain ⟨piece, hpiece, hin⟩ := ih 1 hskip' hmem
          exact ⟨piece, mem_cons_of_mem _ hpiece, hin⟩
        · rw [if_neg hsep]
          obtain ⟨p, ps, hps⟩ := exists_cons_of_ne_nil (splitGo_ne_nil (js "::") 0 text)
          rw [hps, consFirst]
          rcases mem_cons.mp hc with rfl | hc
          · exact ⟨c :: p, mem_cons_self, mem_cons_self⟩
          · obtain ⟨piece, hpiece, hin⟩ := ih 0 (by simp) hc
            rw [hps] at hpiece
            rcases mem_cons.mp hpiece with rfl | hpiece
            · exact ⟨x :: piece, mem_cons_self, mem_cons_of_mem _ hin⟩
            · exact ⟨piece, mem_cons_of_mem _ hpiece, hin⟩
  exact hgo text 0 (by simp) hc

theorem mapM_hextetBytes_eq_none {hs : List JsString} {h : JsString} (hmem : h ∈ hs)
    (hbad : hextetBytes h = none) : hs.mapM hextetBytes = none := by
  induction hs with
  | nil => cases hmem
  | cons x xs ih =>
    rw [mapM_cons]
    rcases mem_cons.mp hmem with rfl | hmem
    · rw [hbad]
      rfl
    · rw [ih hmem]
      cases hextetBytes x <;> rfl

/-- `ipv6ToBytes` reads hexadecimal digits and colons only. -/
theorem ipv6ToBytes_eq_none (hc : c ∈ text) (hne : c ≠ cu ':')
    (hhex : hexValue c = none) : ipv6ToBytes text = none := by
  obtain ⟨piece, hpiece, hin⟩ := exists_mem_split_double hc hne
  obtain ⟨field, hfield, hcf⟩ := exists_mem_fields hin hne
  have hbad : hextetBytes field = none := by
    rw [hextetBytes, not_isHex_of_mem hhex hcf, Bool.and_false]
    rfl
  rw [ipv6ToBytes]
  generalize split text (js "::") = halves at hpiece
  rcases halves with _ | ⟨head, _ | ⟨tail, _ | ⟨more, rest⟩⟩⟩
  · cases hpiece
  · obtain rfl := mem_singleton.mp hpiece
    simp only [length_singleton, headD_cons, Nat.reduceLT, if_false,
      show ¬(1 : Nat) = 2 by decide, decide_false, Bool.false_and, Bool.false_eq_true]
    split
    · rfl
    · rw [mapM_hextetBytes_eq_none hfield hbad]
      rfl
  · have hmem : field ∈ fields head ++ replicate (8 - (fields head).length -
        (fields tail).length) (js "0") ++ fields tail := by
      rcases mem_cons.mp hpiece with rfl | hpiece
      · simp [hfield]
      · obtain rfl := mem_singleton.mp hpiece
        simp [hfield]
    simp only [length_cons, length_nil, headD_cons, Nat.reduceAdd, Nat.lt_irrefl,
      if_false, decide_true, Bool.true_and, if_true, getD_cons_succ, getD_cons_zero]
    split
    · rfl
    · split
      · rfl
      · rw [mapM_hextetBytes_eq_none hmem hbad]
        rfl
  · simp

theorem hextetBytes_of_isHextet {h : JsString} (hh : isHextet h = true) :
    hextetBytes h = some [hexNumber h >>> 8 &&& 0xff, hexNumber h &&& 0xff] := by
  obtain ⟨-, hlen, hall⟩ := isHextet_spec hh
  rw [hextetBytes, hall, decide_eq_true hlen]
  rfl

theorem mapM_hextetBytes_eq {hs : List JsString} (h : ∀ x ∈ hs, isHextet x = true) :
    hs.mapM hextetBytes =
      some (hs.map fun x => [hexNumber x >>> 8 &&& 0xff, hexNumber x &&& 0xff]) := by
  induction hs with
  | nil => rfl
  | cons x xs ih =>
    rw [mapM_cons, hextetBytes_of_isHextet (h x mem_cons_self),
      ih fun y hy => h y (mem_cons_of_mem _ hy)]
    rfl

/-- The bits of the bytes are those of the groups. -/
theorem flatMap_bits_hextets (hs : List JsString) :
    ((hs.map fun x => [hexNumber x >>> 8 &&& 0xff, hexNumber x &&& 0xff]).flatten).flatMap (bits 8) =
      (hs.map hexNumber).flatMap (bits 16) := by
  induction hs with
  | nil => rfl
  | cons x xs ih =>
    rw [map_cons, flatten_cons, flatMap_append, ih, map_cons,
      @List.flatMap_cons _ _ _ (xs.map hexNumber), bits_two_bytes]
    simp

theorem bind_groupsOf_eq_none (hhex : hexValue c = none)
    (hquad : ∀ field ∈ fs, c ∈ field → isIPv4 field = false) (hfield : field ∈ fs)
    (hc : c ∈ field) : groupsOf fs = none := by
  by_contra hsome
  obtain ⟨groups, hgroups⟩ := ne_none_iff_exists'.mp hsome
  rcases groupsOf_spec hgroups field hfield with h | h
  · have hall := (isHextet_spec h).2.2
    rw [not_isHex_of_mem hhex hc] at hall
    cases hall
  · rw [hquad field hfield hc] at h
    cases h

/-- A unit of a dotted quad is a digit or a dot. -/
theorem mem_of_isIPv4 (h : isIPv4 text = true) (hc : c ∈ text) : isDigit c = true ∨ c = cu '.' := by
  by_cases hdot : c = cu '.'
  · exact .inr hdot
  · obtain ⟨part, hpart, hin⟩ := exists_mem_split_unit hc hdot
    simp only [isIPv4, Bool.and_eq_true, List.all_eq_true] at h
    exact .inl ((isNumeric_spec (isOctet_spec (h.2 part hpart)).1).2 c hin)

/-- There is no `%` in an address. -/
theorem groups6_eq_none (hc : cu '%' ∈ text) : groups6 text = none := by
  have hhex : hexValue (cu '%') = none := by decide
  have hquad : ∀ fs : List JsString, ∀ field ∈ fs, cu '%' ∈ field → isIPv4 field = false := by
    intro fs field _ hin
    by_contra h
    rcases mem_of_isIPv4 (by simpa using h) hin with hd | hd <;> exact absurd hd (by decide)
  obtain ⟨piece, hpiece, hin⟩ := exists_mem_split_double hc (by decide)
  obtain ⟨field, hfield, hcf⟩ := exists_mem_fields hin (by decide)
  rw [groups6]
  split
  · rename_i whole hsplit
    rw [hsplit] at hpiece
    obtain rfl := mem_singleton.mp hpiece
    rw [bind_groupsOf_eq_none hhex (hquad _) hfield hcf]
    rfl
  · rename_i head tail hsplit
    rw [hsplit] at hpiece
    split
    · rename_i hall
      rcases mem_cons.mp hpiece with rfl | hpiece
      · have hfh := (isHextet_spec (all_eq_true.mp hall field hfield)).2.2
        rw [not_isHex_of_mem hhex hcf] at hfh
        cases hfh
      · obtain rfl := mem_singleton.mp hpiece
        rw [bind_groupsOf_eq_none hhex (hquad _) hfield hcf]
        rfl
    · rfl
  · rfl

/-- Without a dot there is no dotted quad among the fields. -/
theorem not_isIPv4_of_mem_fields {piece : JsString} (hdot : cu '.' ∉ text)
    (hpiece : piece ∈ split text (js "::")) (hfield : field ∈ fields piece) :
    isIPv4 field = false := by
  refine isIPv4_of_not_mem fun hin => hdot ?_
  rw [fields] at hfield
  split at hfield
  · cases hfield
  · exact mem_of_mem_splitGo hpiece (mem_of_mem_splitGo hfield hin)

theorem ipv6ToBytes_of_groups6 {groups : List Nat} (hdot : cu '.' ∉ text)
    (h : groups6 text = some groups) :
    ∃ bytes, ipv6ToBytes text = some bytes ∧ bytes.flatMap (bits 8) = groups.flatMap (bits 16) := by
  have hquad : ∀ piece ∈ split text (js "::"), ∀ field ∈ fields piece, isIPv4 field = false :=
    fun piece hpiece field hfield => not_isIPv4_of_mem_fields hdot hpiece hfield
  have hread : ∀ hs : List JsString, (∀ x ∈ hs, isHextet x = true) → hs.map hexNumber = groups →
      ∃ bytes, (hs.mapM hextetBytes).map flatten = some bytes ∧
        bytes.flatMap (bits 8) = groups.flatMap (bits 16) := by
    intro hs hhex hgroups
    rw [mapM_hextetBytes_eq hhex]
    exact ⟨_, rfl, by rw [flatMap_bits_hextets, hgroups]⟩
  rw [groups6] at h
  rw [ipv6ToBytes]
  generalize split text (js "::") = halves at h hquad
  split at h
  · rename_i whole
    rw [groupsOf_eq (hquad whole mem_cons_self)] at h
    obtain ⟨hsome, hlen⟩ := filter_eq_some_iff.mp h
    split at hsome
    · rename_i hall
      have hmap := some.inj hsome
      have hlen' : (fields whole).length = 8 := by
        rw [← @List.length_map _ _ (fields whole) hexNumber, hmap]
        exact of_decide_eq_true hlen
      simpa [hlen'] using hread (fields whole) (all_eq_true.mp hall) hmap
    · cases hsome
  · rename_i head tail
    split at h
    · rename_i hhead
      rw [groupsOf_eq (hquad tail (by simp))] at h
      split at h
      · rename_i htail
        simp only [bind_some, length_map] at h
        split at h
        · rename_i hlt
          have hzero : hexNumber (js "0") = 0 := by decide
          have hhex : ∀ x ∈ fields head ++ replicate (8 - (fields head).length -
              (fields tail).length) (js "0") ++ fields tail, isHextet x = true := by
            intro x hx
            rcases mem_append.mp hx with hx | hx
            · rcases mem_append.mp hx with hx | hx
              · exact all_eq_true.mp hhead x hx
              · rw [(mem_replicate.mp hx).2]
                decide
            · exact all_eq_true.mp htail x hx
          have hmap : (fields head ++ replicate (8 - (fields head).length -
              (fields tail).length) (js "0") ++ fields tail).map hexNumber = groups := by
            rw [← some.inj h]
            simp [hzero]
          have hmissing : (fields head).length +
              (8 - (fields head).length - (fields tail).length + (fields tail).length) = 8 := by
            omega
          have hfits : ¬8 < (fields head).length + (fields tail).length := by omega
          obtain ⟨bytes, hbytes, hbits⟩ := hread _ hhex hmap
          refine ⟨bytes, ?_, hbits⟩
          simpa [hfits, hmissing] using hbytes
        · cases h
      · cases h
    · cases h
  · cases h

/-! ## What is read -/

theorem isIP_ne_four (h : isIPv4 text = false) : isIP text ≠ 4 := by
  rw [isIP, if_neg (by simp [h])]
  cases cutFirst (cu '%') text with
  | mk plain zone =>
    cases zone with
    | none =>
      simp only
      split <;> decide
    | some zone =>
      simp only
      split <;> decide

/-- **A text without a dot is read as the address it is.** -/
theorem readAddress_eq (hdot : cu '.' ∉ text) : readAddress text = address text := by
  have hquad := isIPv4_of_not_mem hdot
  by_cases hzone : cu '%' ∈ text
  · rw [address, hquad, groups6_eq_none hzone, readAddress,
      ipv6ToBytes_eq_none hzone (by decide) (by decide), if_neg (isIP_ne_four hquad)]
    simp
  · have hcut : cutFirst (cu '%') text = (text, none) := by
      have hall : ∀ c ∈ text, decide (c ≠ cu '%') = true := by
        intro c hc
        refine decide_eq_true ?_
        rintro rfl
        exact hzone hc
      rw [cutFirst, takeWhile_eq_self_iff.mpr hall, dropWhile_eq_nil_iff.mpr hall]
      rfl
    have hip : isIP text = if (groups6 text).isSome then 6 else 0 := by
      rw [isIP, hquad, hcut]
      rfl
    rw [address, hquad, readAddress, hip]
    cases hgroups : groups6 text with
    | none => rfl
    | some groups =>
      obtain ⟨bytes, hbytes, hbits⟩ := ipv6ToBytes_of_groups6 hdot hgroups
      rw [hbytes]
      exact congrArg some hbits

/-- **A dot is read in a dotted quad only.** -/
theorem readAddress_eq_none (hdot : cu '.' ∈ text) (hquad : isIPv4 text = false) :
    readAddress text = none := by
  rw [readAddress, ipv6ToBytes_eq_none hdot (by decide) (by decide), if_neg (isIP_ne_four hquad)]
  simp

end Aoox.IpAddresses
