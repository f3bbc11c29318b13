import Mathlib.Data.List.Basic

/-! # UTF-8 in pieces

A decoder that never fails: what is no character becomes the replacement character, one for each
longest piece that could have begun one.  Text that is cut into chunks and decoded chunk by chunk
comes back whole exactly when no chunk begins inside a character.  Elsewhere a cut character comes
back as two replacement characters or more, and the characters around it as they were
(`Garbled`), so the decoded text is longer than the one sent (`decode_chunks`).
-/
open List
namespace Utf8

/-- What the decoder knows of an unfinished character: how many bytes are missing, the range of
the next one, and the bits so far. -/
structure Pending where
  (needed low high bits : Nat)

def replacement : Char := Char.ofNat 0xFFFD

/-- A byte at the start of a character. -/
def first (b : UInt8) : List Char × Option Pending :=
  let n := b.toNat
  if n ≤ 0x7F then ([Char.ofNat n], none)
  else if 0xC2 ≤ n ∧ n ≤ 0xDF then ([], some ⟨1, 0x80, 0xBF, n % 0x20⟩)
  else if 0xE0 ≤ n ∧ n ≤ 0xEF then
    ([], some ⟨2, if n = 0xE0 then 0xA0 else 0x80, if n = 0xED then 0x9F else 0xBF, n % 0x10⟩)
  else if 0xF0 ≤ n ∧ n ≤ 0xF4 then
    ([], some ⟨3, if n = 0xF0 then 0x90 else 0x80, if n = 0xF4 then 0x8F else 0xBF, n % 0x08⟩)
  else ([replacement], none)

/-- A byte that cannot go on with the character ends it and is read again. -/
def step : Option Pending → UInt8 → List Char × Option Pending
  | none, b => first b
  | some p, b =>
    if p.low ≤ b.toNat ∧ b.toNat ≤ p.high then
      let bits := p.bits * 64 + b.toNat % 64
      if p.needed = 1 then ([Char.ofNat bits], none) else ([], some ⟨p.needed - 1, 0x80, 0xBF, bits⟩)
    else (replacement :: (first b).1, (first b).2)

def run : Option Pending → List UInt8 → List Char × Option Pending
  | p, [] => ([], p)
  | p, b :: bs => ((step p b).1 ++ (run (step p b).2 bs).1, (run (step p b).2 bs).2)

/-- The end of the bytes ends an unfinished character. -/
def decode (bytes : List UInt8) : List Char :=
  (run none bytes).1 ++ if (run none bytes).2.isSome then [replacement] else []

def encode (text : List Char) : List UInt8 := text.flatMap String.utf8EncodeChar

/-- `10xxxxxx`. -/
def isContinuation (b : UInt8) : Bool := 0x80 ≤ b.toNat && b.toNat ≤ 0xBF

/-! ## One character -/

theorem run_append (p : Option Pending) (a b : List UInt8) :
    run p (a ++ b) = ((run p a).1 ++ (run (run p a).2 b).1, (run (run p a).2 b).2) := by
  induction a generalizing p with
  | nil => rfl
  | cons x a ih => simp [run, ih]

@[simp] theorem encode_nil : encode [] = [] := rfl

@[simp] theorem encode_cons (c : Char) (text : List Char) :
    encode (c :: text) = String.utf8EncodeChar c ++ encode text := rfl

/-- How a character is written and read: each proper part is pending, and only the first byte is
no continuation byte. -/
structure Reads (c : Char) (bytes : List UInt8) : Prop where
  whole : run none bytes = ([c], none)
  part : ∀ p q, bytes = p ++ q → p ≠ [] → q ≠ [] → ∃ pending, run none p = ([], some pending)
  head : ∀ b, bytes.head? = some b → isContinuation b = false
  tail : ∀ b ∈ bytes.tail, isContinuation b = true

variable {c : Char} {b₀ b₁ : UInt8} {p : Pending}

theorem reads_of_two (h₀ : step none b₀ = ([], some p)) (h₁ : step (some p) b₁ = ([c], none))
    (hh : isContinuation b₀ = false) (ht : isContinuation b₁ = true) : Reads c [b₀, b₁] where
  whole := by simp [run, h₀, h₁]
  part u v huv hu hv := by
    match u, v with
    | [x], [y] => exact ⟨p, by simp_all [run]⟩
    | x :: y :: u, v => simp_all
  head b hb := by simp_all
  tail b hb := by simp_all

variable {b₂ : UInt8} {q : Pending}

theorem reads_of_three (h₀ : step none b₀ = ([], some p)) (h₁ : step (some p) b₁ = ([], some q))
    (h₂ : step (some q) b₂ = ([c], none)) (hh : isContinuation b₀ = false)
    (ht : isContinuation b₁ = true) (ht' : isContinuation b₂ = true) : Reads c [b₀, b₁, b₂] where
  whole := by simp [run, h₀, h₁, h₂]
  part u v huv hu hv := by
    match u with
    | [] => exact absurd rfl hu
    | [x] => exact ⟨p, by simp_all [run]⟩
    | [x, y] => exact ⟨q, by simp_all [run]⟩
    | x :: y :: z :: u => simp_all
  head b hb := by simp_all
  tail b hb := by
    rcases mem_pair.mp hb with rfl | rfl
    · exact ht
    · exact ht'

theorem reads_of_four {b₃ : UInt8} {r : Pending} (h₀ : step none b₀ = ([], some p))
    (h₁ : step (some p) b₁ = ([], some q)) (h₂ : step (some q) b₂ = ([], some r))
    (h₃ : step (some r) b₃ = ([c], none)) (hh : isContinuation b₀ = false)
    (ht : isContinuation b₁ = true) (ht' : isContinuation b₂ = true)
    (ht'' : isContinuation b₃ = true) :
    Reads c [b₀, b₁, b₂, b₃] where
  whole := by simp [run, h₀, h₁, h₂, h₃]
  part u v huv hu hv := by
    match u with
    | [] => exact absurd rfl hu
    | [x] => exact ⟨p, by simp_all [run]⟩
    | [x, y] => exact ⟨q, by simp_all [run]⟩
    | [x, y, z] => exact ⟨r, by simp_all [run]⟩
    | x :: y :: z :: w :: u => simp_all
  head b hb := by simp_all
  tail b hb := by
    rcases mem_cons.mp hb with rfl | hb
    · exact ht
    · rcases mem_pair.mp hb with rfl | rfl
      · exact ht'
      · exact ht''

variable {n : Nat}

theorem toNat_byte (h : n < 256) : (UInt8.ofNat n).toNat = n := UInt8.toNat_ofNat_of_lt' h

/-- A continuation byte in range goes on with the character. -/
theorem step_more (hn : p.needed ≠ 1) (hlow : p.low ≤ n) (hhigh : n ≤ p.high) (hbyte : n < 256) :
    step (some p) (UInt8.ofNat n) =
      ([], some ⟨p.needed - 1, 0x80, 0xBF, p.bits * 64 + n % 64⟩) := by
  have hnat : (UInt8.ofNat n).toNat = n := toNat_byte hbyte
  rw [step, hnat, if_pos ⟨hlow, hhigh⟩]
  exact if_neg hn

theorem step_last (hn : p.needed = 1) (hlow : p.low ≤ n) (hhigh : n ≤ p.high) (hbyte : n < 256) :
    step (some p) (UInt8.ofNat n) = ([Char.ofNat (p.bits * 64 + n % 64)], none) := by
  have hnat : (UInt8.ofNat n).toNat = n := toNat_byte hbyte
  rw [step, hnat, if_pos ⟨hlow, hhigh⟩]
  exact if_pos hn

theorem isContinuation_ofNat (hbyte : n < 256) :
    isContinuation (UInt8.ofNat n) = (0x80 ≤ n && n ≤ 0xBF) := by
  rw [isContinuation, toNat_byte hbyte]

/-- **Every character is read back, and is pending at every cut inside it.** -/
theorem reads (c : Char) : Reads c (String.utf8EncodeChar c) := by
  have hvalid : c.toNat < 0xD800 ∨ 0xDFFF < c.toNat ∧ c.toNat < 0x110000 := c.valid
  have hc : Char.ofNat c.toNat = c := Char.ofNat_toNat c
  have hv : c.val.toNat = c.toNat := rfl
  unfold String.utf8EncodeChar
  simp only [hv]
  generalize c.toNat = v at hvalid hc
  split_ifs with h₁ h₂ h₃
  · have hnat : (UInt8.ofNat v).toNat = v := toNat_byte (by omega)
    have hstep : step none (UInt8.ofNat v) = ([c], none) := by
      simp only [step, first, hnat, h₁, if_true, hc]
    refine ⟨by simp [run, hstep], fun p q hpq hp hq => ?_, fun b hb => ?_, by simp⟩
    · match p, q with
      | x :: p, y :: q => simp at hpq
    · obtain rfl := Option.some.inj hb
      rw [isContinuation_ofNat (by omega)]
      simp
      omega
  · have hnat : (UInt8.ofNat (v / 64 % 0x20 + 0xc0)).toNat = v / 64 + 0xc0 := by
      rw [toNat_byte (by omega)]
      omega
    refine reads_of_two (p := ⟨1, 0x80, 0xBF, v / 64⟩) ?_ ?_ ?_ ?_
    · simp only [step, first, hnat]
      rw [if_neg (by omega), if_pos (by omega), show (v / 64 + 0xc0) % 0x20 = v / 64 by omega]
    · rw [step_last rfl (by simp) (by simp; omega) (by omega),
        show v / 64 * 64 + (v % 0x40 + 0x80) % 64 = v by omega, hc]
    · rw [isContinuation, hnat]
      simp
    · rw [isContinuation_ofNat (by omega)]
      simp
      omega
  · have hnat : (UInt8.ofNat (v / 4096 % 0x10 + 0xe0)).toNat = v / 4096 + 0xe0 := by
      rw [toNat_byte (by omega)]
      omega
    refine reads_of_three (p := ⟨2, if v / 4096 + 0xe0 = 0xE0 then 0xA0 else 0x80,
      if v / 4096 + 0xe0 = 0xED then 0x9F else 0xBF, v / 4096⟩) (q := ⟨1, 0x80, 0xBF, v / 64⟩)
      ?_ ?_ ?_ ?_ ?_ ?_
    · simp only [step, first, hnat]
      rw [if_neg (by omega), if_neg (by omega), if_pos (by omega),
        show (v / 4096 + 0xe0) % 0x10 = v / 4096 by omega]
    · rw [step_more (by simp) (by simp only; split <;> omega) (by simp only; split <;> omega) (by omega),
        show v / 4096 * 64 + (v / 64 % 0x40 + 0x80) % 64 = v / 64 by omega]
      rfl
    · rw [step_last rfl (by simp) (by simp; omega) (by omega),
        show v / 64 * 64 + (v % 0x40 + 0x80) % 64 = v by omega, hc]
    · rw [isContinuation, hnat]
      simp
    · rw [isContinuation_ofNat (by omega)]
      simp
      omega
    · rw [isContinuation_ofNat (by omega)]
      simp
      omega
  · have hnat : (UInt8.ofNat (v / 262144 % 0x08 + 0xf0)).toNat = v / 262144 + 0xf0 := by
      rw [toNat_byte (by omega)]
      omega
    refine reads_of_four (p := ⟨3, if v / 262144 + 0xf0 = 0xF0 then 0x90 else 0x80,
      if v / 262144 + 0xf0 = 0xF4 then 0x8F else 0xBF, v / 262144⟩)
      (q := ⟨2, 0x80, 0xBF, v / 4096⟩) (r := ⟨1, 0x80, 0xBF, v / 64⟩) ?_ ?_ ?_ ?_ ?_ ?_ ?_ ?_
    · simp only [step, first, hnat]
      rw [if_neg (by omega), if_neg (by omega), if_neg (by omega), if_pos (by omega),
        show (v / 262144 + 0xf0) % 0x08 = v / 262144 by omega]
    · rw [step_more (by simp) (by simp only; split <;> omega) (by simp only; split <;> omega) (by omega),
        show v / 262144 * 64 + (v / 4096 % 0x40 + 0x80) % 64 = v / 4096 by omega]
      rfl
    · rw [step_more (by simp) (by simp) (by simp; omega) (by omega),
        show v / 4096 * 64 + (v / 64 % 0x40 + 0x80) % 64 = v / 64 by omega]
      rfl
    · rw [step_last rfl (by simp) (by simp; omega) (by omega),
        show v / 64 * 64 + (v % 0x40 + 0x80) % 64 = v by omega, hc]
    · rw [isContinuation, hnat]
      simp
    · rw [isContinuation_ofNat (by omega)]
      simp
      omega
    · rw [isContinuation_ofNat (by omega)]
      simp
      omega
    · rw [isContinuation_ofNat (by omega)]
      simp
      omega

/-! ## Text and its pieces -/

theorem run_encode_append (text : List Char) (bytes : List UInt8) :
    run none (encode text ++ bytes) = (text ++ (run none bytes).1, (run none bytes).2) := by
  induction text with
  | nil => rfl
  | cons c text ih =>
    rw [encode_cons, append_assoc, run_append, (reads c).whole, ih]
    rfl

theorem decode_encode_append (text : List Char) (bytes : List UInt8) :
    decode (encode text ++ bytes) = text ++ decode bytes := by
  rw [decode, run_encode_append, decode, append_assoc]

theorem decode_encode (text : List Char) : decode (encode text) = text := by
  have h := decode_encode_append text []
  rw [append_nil] at h
  exact h.trans (append_nil _)

/-- The beginning of a character is one replacement character. -/
theorem decode_part {p q : List UInt8} (h : String.utf8EncodeChar c = p ++ q) (hp : p ≠ [])
    (hq : q ≠ []) : decode p = [replacement] := by
  obtain ⟨pending, hrun⟩ := (reads c).part p q h hp hq
  rw [decode, hrun]
  rfl

theorem first_continuation {b : UInt8} (h : isContinuation b = true) :
    first b = ([replacement], none) := by
  simp only [isContinuation, Bool.and_eq_true, decide_eq_true_eq] at h
  simp only [first]
  rw [if_neg (by omega), if_neg (by omega), if_neg (by omega), if_neg (by omega)]

/-- Each continuation byte at the start is one replacement character. -/
theorem decode_continuations {q : List UInt8} (hq : ∀ b ∈ q, isContinuation b = true)
    (bytes : List UInt8) :
    decode (q ++ bytes) = replicate q.length replacement ++ decode bytes := by
  induction q with
  | nil => rfl
  | cons b q ih =>
    have hb : step none b = ([replacement], none) := first_continuation (hq b (mem_cons_self ..))
    have ih := ih fun x hx => hq x (mem_cons_of_mem _ hx)
    simp only [decode] at ih
    simp only [decode, cons_append, run, hb, length_cons, replicate_succ, nil_append, ih]

variable {text : List Char}

theorem encode_eq_nil (h : encode text = []) : text = [] := by
  cases text with
  | nil => rfl
  | cons c text => exact absurd (append_eq_nil_iff.mp h).1 String.utf8EncodeChar_ne_nil

/-- **A cut falls between two characters or inside one.** -/
theorem append_eq_encode {a b : List UInt8} (h : a ++ b = encode text) :
    (∃ before after, text = before ++ after ∧ a = encode before ∧ b = encode after) ∨
      ∃ before c after p q, text = before ++ c :: after ∧ String.utf8EncodeChar c = p ++ q ∧
        p ≠ [] ∧ q ≠ [] ∧ a = encode before ++ p ∧ b = q ++ encode after := by
  induction text generalizing a with
  | nil =>
    obtain ⟨rfl, rfl⟩ := append_eq_nil_iff.mp h
    exact .inl ⟨[], [], rfl, rfl, rfl⟩
  | cons c text ih =>
    rcases append_eq_append_iff.mp (h.trans (encode_cons c text)) with
      ⟨q, hchar, hb⟩ | ⟨a', ha, hrest⟩
    · by_cases hq : q = []
      · subst hq
        rw [append_nil] at hchar
        exact .inl ⟨[c], text, rfl, by simp [hchar], hb⟩
      · by_cases ha : a = []
        · subst ha
          exact .inl ⟨[], c :: text, rfl, rfl, h⟩
        · exact .inr ⟨[], c, text, a, q, rfl, hchar, ha, hq, rfl, hb⟩
    · rcases ih hrest.symm with ⟨before, after, rfl, rfl, rfl⟩ | ⟨before, d, after, p, q, rfl, hd, hp,
        hq, rfl, rfl⟩
      · exact .inl ⟨c :: before, after, rfl, ha, rfl⟩
      · exact .inr ⟨c :: before, d, after, p, q, rfl, hd, hp, hq, by simp [ha], rfl⟩

/-! ## Chunks -/

/-- Text in which some characters beyond ASCII have become two replacement characters or more. -/
inductive Garbled : List Char → List Char → Prop where
  | nil : Garbled [] []
  | keep {text text' : List Char} (c : Char)
      (h : Garbled text text') : Garbled (c :: text) (c :: text')
  | cut {text text' : List Char} {c : Char} (hc : 0x80 ≤ c.toNat) (n : Nat)
      (h : Garbled text text') :
      Garbled (c :: text) (List.replicate (n + 2) replacement ++ text')

variable {text' : List Char}

theorem Garbled.append_left (before : List Char) (h : Garbled text text') :
    Garbled (before ++ text) (before ++ text') := by
  induction before with
  | nil => exact h
  | cons c before ih => exact .keep c ih

theorem Garbled.length_le (h : Garbled text text') : text.length ≤ text'.length := by
  induction h with
  | nil => exact Nat.le_refl _
  | keep c _ ih => simpa using ih
  | cut _ n _ ih =>
    simp only [length_cons, length_append, length_replicate]
    omega

/-- A chunk that does not begin inside a character. -/
def Clean (chunk : List UInt8) : Prop := ∀ b, chunk.head? = some b → isContinuation b = false

instance (chunk : List UInt8) : Decidable (Clean chunk) :=
  match chunk with
  | [] => .isTrue (by simp [Clean])
  | b :: bs => decidable_of_iff (isContinuation b = false) (by simp [Clean])

theorem clean_encode (text : List Char) : Clean (encode text) := by
  cases text with
  | nil => simp [Clean]
  | cons c text =>
    intro b hb
    refine (reads c).head b ?_
    rw [encode_cons, List.head?_append_of_ne_nil _ String.utf8EncodeChar_ne_nil] at hb
    exact hb

/-- What decoding chunk by chunk makes of the rest `q` of a character and the text behind it. -/
def Outcome (chunks : List (List UInt8)) (q : List UInt8) (text : List Char) : Prop :=
  ∃ k text', chunks.flatMap decode = List.replicate k replacement ++ text' ∧ Garbled text text' ∧
    (q = [] → k = 0) ∧ (q ≠ [] → 0 < k) ∧
    ((∀ chunk ∈ chunks, Clean chunk) ↔ q = [] ∧ text' = text)

variable {chunks : List (List UInt8)}

/-- A first chunk that begins between two characters. -/
theorem outcome_cons {chunk : List UInt8}
    (ih : ∀ q text, (∀ b ∈ q, isContinuation b = true) → chunks.flatten = q ++ encode text →
      Outcome chunks q text)
    (h : chunk ++ chunks.flatten = encode text) : Outcome (chunk :: chunks) [] text := by
  rcases append_eq_encode h with ⟨before, after, rfl, rfl, hrest⟩ |
    ⟨before, c, after, p, q, rfl, hc, hp, hq, rfl, hrest⟩
  · obtain ⟨k, text', hdec, hgar, hk, -, hclean⟩ := ih [] after (by simp) hrest
    obtain rfl := hk rfl
    refine ⟨0, before ++ text', ?_, hgar.append_left before, fun _ => rfl, by simp, ?_⟩
    · rw [flatMap_cons, hdec, decode_encode]
      rfl
    · rw [forall_mem_cons, hclean]
      simp [clean_encode before]
  · have htail : ∀ b ∈ q, isContinuation b = true := by
      intro b hb
      refine (reads c).tail b ?_
      rw [hc]
      obtain ⟨x, p, rfl⟩ := exists_cons_of_ne_nil hp
      exact mem_append_right _ hb
    obtain ⟨k, text', hdec, hgar, -, hk, hclean⟩ := ih q after htail hrest
    obtain ⟨n, rfl⟩ := Nat.exists_eq_succ_of_ne_zero (Nat.pos_iff_ne_zero.mp (hk hq))
    have hascii : 0x80 ≤ c.toNat := by
      by_contra hlt
      have hone : String.utf8EncodeChar c = [UInt8.ofNat c.toNat] := if_pos (by
        show c.toNat ≤ 0x7f
        omega)
      have hlen := congrArg List.length (hone.symm.trans hc)
      have hp' := length_pos_iff.mpr hp
      have hq' := length_pos_iff.mpr hq
      simp only [length_cons, length_nil, length_append] at hlen
      omega
    have hgar' := (Garbled.cut hascii n hgar).append_left before
    refine ⟨0, _, ?_, hgar', fun _ => rfl, by simp, ?_⟩
    · rw [flatMap_cons, hdec, decode_encode_append, decode_part hc hp hq]
      simp [replicate_succ]
    · -- the next chunk begins with what is left of the character
      refine iff_of_false (fun hall => ?_) fun heq => ?_
      · exact hq (hclean.mp fun x hx => hall x (mem_cons_of_mem _ hx)).1
      · have hlen := congrArg List.length heq.2
        have hle := hgar.length_le
        simp only [length_append, length_replicate, length_cons] at hlen
        omega

/-- **Chunk by chunk, text comes back whole or garbled**, and whole exactly when no chunk begins
inside a character. -/
theorem outcome (chunks : List (List UInt8)) (q : List UInt8) (text : List Char)
    (hq : ∀ b ∈ q, isContinuation b = true) (h : chunks.flatten = q ++ encode text) :
    Outcome chunks q text := by
  induction chunks generalizing q text with
  | nil =>
    obtain ⟨rfl, htext⟩ := append_eq_nil_iff.mp h.symm
    obtain rfl := encode_eq_nil htext
    exact ⟨0, [], rfl, .nil, fun _ => rfl, by simp, by simp⟩
  | cons chunk chunks ih =>
    rw [flatten_cons] at h
    rcases append_eq_append_iff.mp h with ⟨rest, rfl, hrest⟩ | ⟨chunk', rfl, htext⟩
    · -- the chunk holds continuation bytes only
      have hchunk : ∀ b ∈ chunk, isContinuation b = true := fun b hb => hq b (mem_append_left _ hb)
      obtain ⟨k, text', hdec, hgar, hzero, hpos, hclean⟩ :=
        ih rest text (fun b hb => hq b (mem_append_right _ hb)) hrest
      have hdecode := decode_continuations hchunk []
      rw [append_nil] at hdecode
      refine ⟨chunk.length + k, text', ?_, hgar, ?_, ?_, ?_⟩
      · rw [flatMap_cons, hdec, hdecode, replicate_add, append_assoc, append_assoc]
        rfl
      · intro hnil
        obtain ⟨rfl, hrest⟩ := append_eq_nil_iff.mp hnil
        simpa using hzero hrest
      · intro hne
        by_cases hnil : chunk = []
        · have := hpos (by simpa [hnil] using hne)
          omega
        · have := length_pos_iff.mpr hnil
          omega
      · by_cases hnil : chunk = []
        · subst hnil
          rw [forall_mem_cons, hclean]
          simp [Clean]
        · refine iff_of_false (fun hall => ?_) fun heq => hnil (append_eq_nil_iff.mp heq.1).1
          obtain ⟨b, bs, rfl⟩ := exists_cons_of_ne_nil hnil
          have hb := hall _ (mem_cons_self ..) b rfl
          rw [hchunk b (mem_cons_self ..)] at hb
          cases hb
    · -- the chunk holds them and goes on between two characters
      obtain ⟨k, text', hdec, hgar, hzero, -, hclean⟩ := outcome_cons ih htext.symm
      obtain rfl := hzero rfl
      refine ⟨q.length, text', ?_, hgar, fun hnil => by simp [hnil],
        length_pos_iff.mpr, ?_⟩
      · rw [flatMap_cons] at hdec ⊢
        rw [decode_continuations hq, append_assoc, hdec]
        rfl
      · by_cases hnil : q = []
        · subst hnil
          simpa using hclean
        · refine iff_of_false (fun hall => ?_) fun heq => hnil heq.1
          obtain ⟨b, bs, rfl⟩ := exists_cons_of_ne_nil hnil
          have hb := hall _ (mem_cons_self ..) b rfl
          rw [hq b (mem_cons_self ..)] at hb
          cases hb

/-- **Text in chunks.** -/
theorem decode_chunks (h : chunks.flatten = encode text) : Garbled text (chunks.flatMap decode) ∧
      ((∀ chunk ∈ chunks, Clean chunk) ↔ chunks.flatMap decode = text) := by
  obtain ⟨k, text', hdec, hgar, hzero, -, hclean⟩ := outcome chunks [] text (by simp) h
  obtain rfl := hzero rfl
  rw [hdec]
  exact ⟨hgar, by simpa using hclean⟩

end Utf8
