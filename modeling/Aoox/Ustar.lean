import Mathlib

/-! # Archives in the ustar format

The format of POSIX for archives of regular files.  A member is a header of 512 bytes, with its
fields at fixed places, and its data, filled up to whole blocks; two blocks of zeros end the
archive.  `read` takes an archive apart and refuses one in which a header is not in order.  What it
makes of an archive is decided member by member (`read_member`, `eq_of_read_cons`).
-/
open List Option
namespace Ustar

abbrev Bytes := List UInt8

structure Member where
  name : Bytes
  mode : Nat
  data : Bytes

/-! ## The fields of a header -/

def field (block : Bytes) (start length : Nat) : Bytes := (block.drop start).take length

/-- A text ends at its first NUL, or with its field. -/
def text (bytes : Bytes) : Bytes := bytes.takeWhile (· ≠ 0)

def isOctalDigit (b : UInt8) : Bool := 0x30 ≤ b && b ≤ 0x37

def value (digits : Bytes) : Nat := digits.foldl (fun n d => 8 * n + (d.toNat - 0x30)) 0

/-- Octal digits, ended by one or more spaces or NULs. -/
def number (bytes : Bytes) : Option Nat :=
  let digits := bytes.takeWhile isOctalDigit
  let stop := bytes.dropWhile isOctalDigit
  if digits ≠ [] ∧ stop ≠ [] ∧ ∀ b ∈ stop, b = 0 ∨ b = 0x20 then some (value digits) else none

def checksum (block : Bytes) : Nat :=
  ((field block 0 148 ++ List.replicate 8 0x20 ++ block.drop 156).map UInt8.toNat).sum

/-- The checksum in a header is the one of the header. -/
def ChecksumValid (block : Bytes) : Prop := number (field block 148 8) = some (checksum block)

instance (block : Bytes) : Decidable (ChecksumValid block) :=
  inferInstanceAs (Decidable (_ = _))

/-- The name, behind its prefix if there is one. -/
def nameOf (block : Bytes) : Bytes :=
  let front := text (field block 345 155)
  if front = [] then text (field block 0 100) else front ++ 0x2F :: text (field block 0 100)

def magic : Bytes := [0x75, 0x73, 0x74, 0x61, 0x72, 0]

def version : Bytes := [0x30, 0x30]

/-- What a header says of its member. -/
structure Header where
  name : Bytes
  (mode size : Nat)

/-- The header of a regular file. -/
def header (block : Bytes) : Option Header :=
  if field block 257 6 = magic ∧ field block 263 2 = version ∧
      (field block 156 1 = [0x30] ∨ field block 156 1 = [0]) ∧ ChecksumValid block then
    (number (field block 100 8)).bind fun mode =>
      (number (field block 124 12)).map fun size => ⟨nameOf block, mode, size⟩
  else none

/-! ## The reader -/

/-- The length of the blocks that `size` bytes take. -/
def padded (size : Nat) : Nat := (size + 511) / 512 * 512

def zeros (n : Nat) : Bytes := List.replicate n 0

/-- The members of an archive; `none` if it is none. -/
def read (bytes : Bytes) : Option (List Member) :=
  if zeros 1024 <+: bytes then some []
  else if bytes.length < 512 then none
  else
    match header (field bytes 0 512) with
    | none => none
    | some h =>
      if bytes.length < 512 + padded h.size then none
      else
        (read (bytes.drop (512 + padded h.size))).map
          (⟨h.name, h.mode, field bytes 512 h.size⟩ :: ·)
termination_by bytes.length
decreasing_by
  rw [List.length_drop]
  omega

/-! ## Numbers -/

theorem isOctalDigit_iff {b : UInt8} : isOctalDigit b = true ↔ 0x30 ≤ b.toNat ∧ b.toNat ≤ 0x37 := by
  rw [isOctalDigit, Bool.and_eq_true, decide_eq_true_iff, decide_eq_true_iff, UInt8.le_iff_toNat_le,
    UInt8.le_iff_toNat_le]
  rfl

variable {digits : Bytes}

theorem number_digits {stop : Bytes} (hne : digits ≠ [])
    (hdigits : ∀ d ∈ digits, isOctalDigit d = true) (hstop : stop ≠ [])
    (hends : ∀ b ∈ stop, b = 0 ∨ b = 0x20) : number (digits ++ stop) = some (value digits) := by
  obtain ⟨b, stop, rfl⟩ := exists_cons_of_ne_nil hstop
  have hb : isOctalDigit b = false := by
    rcases hends b mem_cons_self with rfl | rfl
    · rfl
    · rfl
  have htake : (digits ++ b :: stop).takeWhile isOctalDigit = digits := by
    rw [takeWhile_append_of_pos hdigits, takeWhile_cons_of_neg (by simp [hb]),
      append_nil]
  have hdrop : (digits ++ b :: stop).dropWhile isOctalDigit = b :: stop := by
    rw [dropWhile_append_of_pos hdigits, dropWhile_cons_of_neg (by simp [hb])]
  rw [number, htake, hdrop, if_pos ⟨hne, hstop, hends⟩]

/-- Digits up to the end of the field are not ended. -/
theorem number_unended (hdigits : ∀ d ∈ digits, isOctalDigit d = true) : number digits = none := by
  have hdrop : digits.dropWhile isOctalDigit = [] := dropWhile_eq_nil_iff.mpr hdigits
  rw [number, hdrop]
  exact if_neg fun h => h.2.1 rfl

/-! ## Members -/

theorem le_padded (size : Nat) : size ≤ padded size := by
  rw [padded]
  omega

variable {block : Bytes} {h : Header}

theorem header_eq_some_iff :
    header block = some h ↔ (field block 257 6 = magic ∧ field block 263 2 = version ∧
      (field block 156 1 = [0x30] ∨ field block 156 1 = [0]) ∧ ChecksumValid block) ∧
      nameOf block = h.name ∧ number (field block 100 8) = some h.mode ∧
        number (field block 124 12) = some h.size := by
  obtain ⟨name, mode, size⟩ := h
  rw [header]
  split_ifs with hframe
  · simp only [bind_eq_some_iff, map_eq_some_iff, Header.mk.injEq, hframe, true_and]
    constructor
    · rintro ⟨m, hm, s, hs, hname, rfl, rfl⟩
      exact ⟨hname, hm, hs⟩
    · rintro ⟨hname, hm, hs⟩
      exact ⟨mode, hm, size, hs, hname, rfl, rfl⟩
  · constructor
    · intro h
      cases h
    · exact fun h => absurd h.1 hframe

theorem field_append {start length : Nat} (h : start + length ≤ block.length)
    (rest : Bytes) : field (block ++ rest) start length = field block start length := by
  rw [field, field, drop_append_of_le_length (by omega), take_append_of_le_length]
  rw [length_drop]
  omega

theorem not_zeros_of_header (hblock : block.length = 512) (hheader : header block = some h)
    (rest : Bytes) : ¬ zeros 1024 <+: block ++ rest := by
  rintro ⟨behind, heq⟩
  have hmagic := (header_eq_some_iff.mp hheader).1.1
  have hfield := congrArg (field · 257 6) heq
  have hzero : field (zeros 1024) 257 6 = zeros 6 := by
    rw [field, zeros, drop_replicate, take_replicate]
    rfl
  have hlen : (zeros 1024).length = 1024 := length_replicate
  rw [field_append (by omega), field_append (by omega), hmagic, hzero] at hfield
  exact absurd hfield (by decide)

/-- **What is read first is what the first header says**, and the rest is read behind its blocks. -/
theorem read_header (hblock : block.length = 512) (hheader : header block = some h) (body : Bytes) :
    read (block ++ body) = if body.length < padded h.size then none
      else (read (body.drop (padded h.size))).map (⟨h.name, h.mode, body.take h.size⟩ :: ·) := by
  have hlen : (block ++ body).length = 512 + body.length := by rw [length_append, hblock]
  have hfirst : field (block ++ body) 0 512 = block := by
    rw [field_append (by omega), field, drop_zero, take_of_length_le (by omega)]
  have hdata : field (block ++ body) 512 h.size = body.take h.size := by
    rw [field, drop_left' hblock]
  have hdrop : (block ++ body).drop (512 + padded h.size) = body.drop (padded h.size) := by
    rw [← drop_drop, drop_left' hblock]
  rw [read, if_neg (not_zeros_of_header hblock hheader body), if_neg (by omega), hfirst]
  simp only [hheader, hlen, hdata, hdrop]
  by_cases hshort : body.length < padded h.size
  · rw [if_pos (by omega), if_pos hshort]
  · rw [if_neg (by omega), if_neg hshort]

/-- **A member is read.** -/
theorem read_member {data fill : Bytes} (hblock : block.length = 512)
    (hheader : header block = some h) (hsize : data.length = h.size)
    (hfill : data.length + fill.length = padded h.size) (rest : Bytes) :
    read (block ++ data ++ fill ++ rest) = (read rest).map (⟨h.name, h.mode, data⟩ :: ·) := by
  have hbody : (data ++ fill).length = padded h.size := by rw [length_append, hfill]
  have htake : (data ++ fill ++ rest).take h.size = data := by
    rw [append_assoc, take_left' hsize]
  have hreads := read_header hblock hheader (data ++ fill ++ rest)
  rw [htake, drop_left' hbody, if_neg (by rw [length_append]; omega)] at hreads
  simpa only [append_assoc] using hreads

/-- **What was read first stands in the first header.** -/
theorem eq_of_read_cons {body : Bytes} (hblock : block.length = 512) {m : Member} {ms : List Member}
    (hread : read (block ++ body) = some (m :: ms)) :
    ∃ h, header block = some h ∧ m.name = h.name ∧ m.mode = h.mode ∧ m.data.length = h.size := by
  cases hheader : header block with
  | some h =>
    rw [read_header hblock hheader] at hread
    split_ifs at hread with hshort
    obtain ⟨rest, -, heq⟩ := map_eq_some_iff.mp hread
    obtain ⟨rfl, -⟩ := List.cons.inj heq
    have hle := le_padded h.size
    exact ⟨h, rfl, rfl, rfl, by rw [length_take]; omega⟩
  | none =>
    have hfirst : field (block ++ body) 0 512 = block := by
      rw [field_append (by omega), field, drop_zero, take_of_length_le (by omega)]
    rw [read, hfirst, hheader] at hread
    split_ifs at hread
    cases hread

theorem read_zeros : read (zeros 1024) = some [] := by
  rw [read, if_pos (prefix_refl _)]

end Ustar
