import Aoox.CaseMapping
import Mathlib

/-! # Base32 secrets

Encoder and decoder keep their pending bits at the low end of a 32-bit integer and never clear what
they have handed on, so that old bits wander up and fall out of the word.  The invariant of either
loop therefore speaks of the low bits alone.  What was read so far is the bits handed on followed by
the pending ones.
-/
open List
namespace Aoox

/-! ## Bits -/

variable {n : Nat}

namespace Bits
variable {w w' : Nat}

/-- The low `n` bits of a word, the highest first. -/
def low (v : BitVec w) : Nat → List Bool
  | 0 => []
  | n + 1 => v.getLsbD n :: low v n

@[simp] theorem length_low (v : BitVec w) (n : Nat) : (low v n).length = n := by
  induction n with
  | zero => rfl
  | succ n ih => rw [low, length_cons, ih]

theorem low_congr {v : BitVec w} {v' : BitVec w'} (h : ∀ i < n, v.getLsbD i = v'.getLsbD i) :
    low v n = low v' n := by
  induction n with
  | zero => rfl
  | succ n ih =>
    rw [low, low, h n (Nat.lt_succ_self n), ih fun i hi => h i (Nat.lt_succ_of_lt hi)]

theorem low_setWidth (hn : n ≤ w') (v : BitVec w) : low (v.setWidth w') n = low v n :=
  low_congr fun i hi => by simp [show i < w' by omega]

theorem getLsbD_of_low {v v' : BitVec w} {i : Nat} (h : low v n = low v' n) (hi : i < n) :
    v.getLsbD i = v'.getLsbD i := by
  induction n with
  | zero => omega
  | succ n ih =>
    obtain ⟨hhead, htail⟩ := List.cons.inj h
    rcases Nat.lt_succ_iff_lt_or_eq.mp hi with hlt | rfl
    · exact ih htail hlt
    · exact hhead

/-- Shifting in `n` bits puts them behind the pending ones, as long as these fit the word. -/
theorem low_shiftIn {v d : BitVec w} {k : Nat} (hfit : k + n ≤ w) (hd : d.toNat < 2 ^ n) :
    low (v <<< n ||| d) (k + n) = low v k ++ low d n := by
  induction k with
  | zero =>
    rw [Nat.zero_add]
    refine low_congr fun i hi => ?_
    simp [show i < n from hi]
  | succ k ih =>
    have hhigh : d.getLsbD (k + n) = false :=
      Nat.testBit_lt_two_pow (Nat.lt_of_lt_of_le hd (Nat.pow_le_pow_right (by omega) (by omega)))
    rw [Nat.succ_add, low, ih (by omega), low, cons_append, BitVec.getLsbD_or, hhigh,
      BitVec.getLsbD_shiftLeft]
    simp [show k + n < w by omega]

/-- The upper `n` of the pending bits are handed on, the others stay. -/
theorem low_handOn (v m : BitVec w) {k : Nat} (hm : ∀ i, m.getLsbD i = decide (i < n)) :
    low v (k + n) = low ((v >>> k) &&& m) n ++ low v k := by
  have hgo : ∀ j ≤ n, low v (k + j) = low ((v >>> k) &&& m) j ++ low v k := by
    intro j hj
    induction j with
    | zero => rfl
    | succ j ih =>
      rw [← Nat.add_assoc, low, ih (by omega), low, cons_append, BitVec.getLsbD_and, hm,
        BitVec.getLsbD_ushiftRight, decide_eq_true (by omega : j < n), Bool.and_true]
  exact hgo n (Nat.le_refl n)

theorem flatMap_low_inj (hw : w ≤ n) {a b : List (BitVec w)} (hlength : a.length = b.length)
    (h : a.flatMap (fun v => low v n) = b.flatMap fun v => low v n) : a = b := by
  induction a generalizing b with
  | nil => exact (length_eq_zero_iff.mp hlength.symm).symm
  | cons x a ih =>
    obtain _ | ⟨y, b⟩ := b
    · simp at hlength
    rw [flatMap_cons, flatMap_cons] at h
    obtain ⟨hhead, htail⟩ := append_inj h (by rw [length_low, length_low])
    rw [ih (Nat.succ.inj hlength) htail]
    congr 1
    exact BitVec.eq_of_getLsbD_eq fun i hi => getLsbD_of_low hhead (by omega)

theorem length_flatMap_low (n : Nat) (l : List (BitVec w)) :
    (l.flatMap fun v => low v n).length = n * l.length := by
  induction l with
  | nil => rfl
  | cons v l ih =>
    rw [flatMap_cons, length_append, ih, length_low, length_cons, Nat.mul_succ, Nat.add_comm]

end Bits

namespace Totp
open JsString Bits

/-! ## The encoder -/

/-- A number of the source as its bit operators see it. -/
abbrev Word := BitVec 32

def BASE32 : JsString := js "ABCDEFGHIJKLMNOPQRSTUVWXYZ234567"

/-- What `out += BASE32[i]` appends. -/
def symbol (i : Word) : JsString :=
  match BASE32[i.toNat]? with
  | some c => [c]
  | none => js "undefined"

/-- The inner loop of the encoder, with the bits that stay pending. -/
def emit (value : Word) (bits : Nat) : JsString × Nat :=
  if 5 ≤ bits then
    let rest := emit value (bits - 5)
    (symbol ((value >>> (bits - 5)) &&& 31) ++ rest.1, rest.2)
  else ([], bits)

def encodeGo : (buf : List UInt8) → (value : Word) → (bits : Nat) → JsString
  | [], value, bits => if 0 < bits then symbol ((value <<< (5 - bits)) &&& 31) else []
  | byte :: buf, value, bits =>
    let value := value <<< 8 ||| byte.toBitVec.setWidth 32
    let out := emit value (bits + 8)
    out.1 ++ encodeGo buf value out.2

def base32Encode (buf : List UInt8) : JsString := encodeGo buf 0 0

/-! ## The decoder -/

/-- `BASE32.indexOf(ch)`. -/
def position (ch : CodeUnit) : Word :=
  match indexOf [ch] BASE32 0 with
  | some i => BitVec.ofNat 32 i
  | none => -1

def decodeGo : (clean : JsString) → (value : Word) → (bits : Nat) → List UInt8
  | [], _, _ => []
  | ch :: clean, value, bits =>
    let value := value <<< 5 ||| position ch
    if 8 ≤ bits + 5 then
      ⟨((value >>> (bits + 5 - 8)) &&& 255).setWidth 8⟩ :: decodeGo clean value (bits + 5 - 8)
    else decodeGo clean value (bits + 5)

/-- `[A-Z2-7]`. -/
def isSymbol (c : CodeUnit) : Bool := (cu 'A' ≤ c && c ≤ cu 'Z') || (cu '2' ≤ c && c ≤ cu '7')

def base32Decode (T : CaseMapping.Tables) (s : JsString) : List UInt8 :=
  decodeGo ((T.toUpperCase s).filter isSymbol) 0 0

example : base32Encode [72, 105] = js "JBUQ" := by simp [base32Encode, encodeGo, emit]; decide

/-! ## Symbols -/

/-- A symbol of the alphabet, which the decoder takes as it is. -/
structure Plain (c : CodeUnit) : Prop where
  kept : isSymbol c
  ascii : c < 128
  upper : CaseMapping.asciiUpper c = c
  fits : (position c).toNat < 2 ^ 5

theorem symbol_ofNat : ∀ i < 32, ∃ c ∈ BASE32[i]?, position c = BitVec.ofNat 32 i ∧
    isSymbol c ∧ c < 128 ∧ CaseMapping.asciiUpper c = c := by
  simp only [BASE32, position]
  repeat rw [js_ofList]
  decide

theorem symbol_mask (v : Word) :
    ∃ c, symbol (v &&& 31) = [c] ∧ position c = v &&& 31 ∧ Plain c := by
  have hlt : (v &&& 31).toNat < 32 := by
    rw [BitVec.toNat_and]
    exact Nat.lt_succ_of_le Nat.and_le_right
  obtain ⟨c, hc, hposition, hkept, hascii, hupper⟩ := symbol_ofNat _ hlt
  rw [BitVec.ofNat_toNat, BitVec.setWidth_eq] at hposition
  refine ⟨c, ?_, hposition, hkept, hascii, hupper, hposition ▸ hlt⟩
  rw [symbol, Option.mem_def.mp hc]

theorem getLsbD_mask (hn : n ≤ 32) (i : Nat) :
    (BitVec.ofNat 32 (2 ^ n - 1)).getLsbD i = decide (i < n) := by
  rw [BitVec.getLsbD_ofNat, Nat.testBit_two_pow_sub_one, Bool.and_eq_right_iff_imp]
  intro hi
  exact decide_eq_true (Nat.lt_of_lt_of_le (of_decide_eq_true hi) hn)

/-! ## What a text says -/

def textBits (text : JsString) : List Bool := text.flatMap fun c => low (position c) 5

def byteBits (bytes : List UInt8) : List Bool := bytes.flatMap fun b => low b.toBitVec 8

theorem byteBits_map (bytes : List UInt8) :
    byteBits bytes = (bytes.map UInt8.toBitVec).flatMap fun v => low v 8 := by
  rw [byteBits, flatMap_map]

theorem length_byteBits (bytes : List UInt8) : (byteBits bytes).length = 8 * bytes.length := by
  rw [byteBits_map, length_flatMap_low, length_map]

theorem byteBits_inj {a b : List UInt8} (hlength : a.length = b.length)
    (h : byteBits a = byteBits b) : a = b := by
  rw [byteBits_map, byteBits_map] at h
  exact map_injective_iff.mpr (fun _ _ => UInt8.toBitVec_inj.mp)
    (flatMap_low_inj (Nat.le_refl 8) (by simpa using hlength) h)

/-- The inner loop hands on all bits but the last few. -/
theorem emit_bits (value : Word) (bits : Nat) :
    textBits (emit value bits).1 ++ low value (emit value bits).2 = low value bits ∧
      (emit value bits).2 < 5 ∧ ∀ c ∈ (emit value bits).1, Plain c := by
  induction bits using Nat.strongRecOn with
  | ind bits ih =>
    rw [emit]
    split
    · next hbits =>
      obtain ⟨hrest, hlt, hplain⟩ := ih (bits - 5) (by omega)
      obtain ⟨c, hsymbol, hposition, hc⟩ := symbol_mask (value >>> (bits - 5))
      rw [hsymbol]
      refine ⟨?_, hlt, forall_mem_cons.mpr ⟨hc, hplain⟩⟩
      have hcut := low_handOn value 31 (k := bits - 5) (getLsbD_mask (n := 5) (by decide))
      rw [Nat.sub_add_cancel hbits] at hcut
      rw [hcut, ← hrest, ← hposition]
      exact append_assoc _ _ _
    · next hbits => exact ⟨rfl, Nat.lt_of_not_le hbits, fun c hc => absurd hc not_mem_nil⟩

variable {bits : Nat} {value : Word}

/-- **The encoder writes the bits of its bytes**, and fills up the last symbol. -/
theorem encodeGo_bits (buf : List UInt8) (hbits : bits < 5) : (∃ pad : List Bool, pad.length < 5 ∧
      textBits (encodeGo buf value bits) = low value bits ++ byteBits buf ++ pad) ∧
      ∀ c ∈ encodeGo buf value bits, Plain c := by
  induction buf generalizing value bits with
  | nil =>
    rw [encodeGo]
    split
    · next hpos =>
      obtain ⟨c, hsymbol, hposition, hc⟩ := symbol_mask (value <<< (5 - bits))
      rw [hsymbol]
      refine ⟨⟨low (0 : Word) (5 - bits), by rw [length_low]; omega, ?_⟩,
        forall_mem_singleton.mpr hc⟩
      have hshift := low_shiftIn (v := value) (d := 0) (k := bits) (n := 5 - bits) (by omega)
        (Nat.two_pow_pos _)
      rw [Nat.add_sub_cancel' (by omega), show value <<< (5 - bits) ||| 0 = value <<< (5 - bits) from
        BitVec.or_zero] at hshift
      have hcut := low_handOn (value <<< (5 - bits)) 31 (k := 0) (getLsbD_mask (n := 5) (by decide))
      rw [Nat.zero_add, BitVec.ushiftRight_zero] at hcut
      rw [byteBits, flatMap_nil, append_nil, ← hshift, hcut, ← hposition]
      rfl
    · next hpos =>
      obtain rfl : bits = 0 := by omega
      exact ⟨⟨[], by decide, rfl⟩, fun c hc => absurd hc not_mem_nil⟩
  | cons byte buf ih =>
    rw [encodeGo]
    obtain ⟨hout, hlt, hplain⟩ := emit_bits (value <<< 8 ||| byte.toBitVec.setWidth 32) (bits + 8)
    obtain ⟨⟨pad, hpad, hrest⟩, hplain'⟩ := ih hlt
    refine ⟨⟨pad, hpad, ?_⟩, forall_mem_append.mpr ⟨hplain, hplain'⟩⟩
    have hshift := low_shiftIn (v := value) (d := byte.toBitVec.setWidth 32) (k := bits) (n := 8)
      (by omega) (by rw [BitVec.toNat_setWidth]; omega)
    have hbyte : low (byte.toBitVec.setWidth 32) 8 = low byte.toBitVec 8 :=
      low_setWidth (by decide) _
    calc textBits ((emit _ (bits + 8)).1 ++ _)
        = textBits (emit (value <<< 8 ||| byte.toBitVec.setWidth 32) (bits + 8)).1 ++
            (low (value <<< 8 ||| byte.toBitVec.setWidth 32)
              (emit (value <<< 8 ||| byte.toBitVec.setWidth 32) (bits + 8)).2 ++
              byteBits buf ++ pad) := by rw [textBits, flatMap_append, ← textBits, ← hrest]; rfl
      _ = low (value <<< 8 ||| byte.toBitVec.setWidth 32) (bits + 8) ++ byteBits buf ++ pad := by
        rw [← hout, append_assoc, append_assoc, append_assoc]
      _ = low value bits ++ byteBits (byte :: buf) ++ pad := by
        rw [hshift, hbyte, byteBits, byteBits, flatMap_cons, append_assoc, append_assoc,
          append_assoc, append_assoc]

/-- **The decoder reads the bits of its symbols**, and leaves those that fill no byte. -/
theorem decodeGo_bits {clean : JsString} (hplain : ∀ c ∈ clean, Plain c) (hbits : bits < 8) :
    ∃ left : List Bool, left.length < 8 ∧
      byteBits (decodeGo clean value bits) ++ left = low value bits ++ textBits clean := by
  induction clean generalizing value bits with
  | nil => exact ⟨low value bits, by rwa [length_low], (append_nil _).symm⟩
  | cons ch clean ih =>
    obtain ⟨hch, hrest⟩ := forall_mem_cons.mp hplain
    have hshift := low_shiftIn (v := value) (k := bits) (by omega) hch.fits
    rw [textBits, flatMap_cons, ← append_assoc, ← hshift, decodeGo]
    split
    · next hfull =>
      obtain ⟨left, hlt, hleft⟩ : ∃ left : List Bool, left.length < 8 ∧
          byteBits (decodeGo clean (value <<< 5 ||| position ch) (bits + 5 - 8)) ++ left =
            low _ _ ++ textBits clean := ih hrest (by omega)
      have hcut := low_handOn (value <<< 5 ||| position ch) 255 (k := bits + 5 - 8)
        (getLsbD_mask (n := 8) (by decide))
      rw [Nat.sub_add_cancel hfull] at hcut
      refine ⟨left, hlt, ?_⟩
      rw [byteBits, flatMap_cons, append_assoc, ← byteBits, hleft, hcut, append_assoc]
      exact congrArg (· ++ _) (low_setWidth (Nat.le_refl 8) _)
    · next hfull => exact ih hrest (by omega)

/-- **What is encoded is decoded again.** -/
theorem base32Decode_base32Encode (T : CaseMapping.Tables) (b : List UInt8) :
    base32Decode T (base32Encode b) = b := by
  rw [base32Decode, base32Encode]
  obtain ⟨⟨pad, hpad, hencode⟩, hplain⟩ := @encodeGo_bits 0 0 b (by decide)
  have hclean : (T.toUpperCase (encodeGo b 0 0)).filter isSymbol = encodeGo b 0 0 := by
    rw [CaseMapping.toUpperCase_ascii T fun c hc => (hplain c hc).ascii,
      List.map_congr_left fun c hc => (hplain c hc).upper, List.map_id']
    exact List.filter_eq_self.mpr fun c hc => (hplain c hc).kept
  obtain ⟨left, hleft, hdecode⟩ := @decodeGo_bits 0 0 _ hplain (by decide)
  rw [hencode] at hdecode
  -- Less than a byte is left on either side, so the two have equally many bytes.
  have hbits : byteBits (decodeGo (encodeGo b 0 0) 0 0) ++ left = byteBits b ++ pad := hdecode
  have hcount := congrArg List.length hbits
  rw [List.length_append, List.length_append, length_byteBits, length_byteBits] at hcount
  have hlength : (decodeGo (encodeGo b 0 0) 0 0).length = b.length := by omega
  rw [hclean]
  exact byteBits_inj hlength (List.append_inj_left hbits (by
    rw [length_byteBits, length_byteBits, hlength]))

end Totp
end Aoox
