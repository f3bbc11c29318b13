import Aoox.ComposeOverride
import Aoox.ImportedMounts
import Aoox.SingleFileUntar
import Aoox.Ustar

/-! # The archives files are sent in

`tarFiles` writes the files that are put into a container as a ustar archive: each header is a
block of zeros into which the fields are written one after the other, cut to the room they have.
Numbers have room for seven or eleven octal digits and names for 100 bytes.  A file whose name,
mode or size has more is read back as another one, without any error, and that is all that can go
wrong (`roundTrips_iff`).  Mounts of stacks are named after a service, whose name may have any
length.
-/
namespace Aoox.TarArchive
open JsString DockerFrames List Option

/-! ## The writer -/

/-- The UTF-8 bytes of every character of a text; a lone surrogate is written as U+FFFD. -/
def charBytes : JsString → List Buffer
  | [] => []
  | [c] => [(utf8Bytes (loneUnit c).toNat).map UInt8.ofNat]
  | c :: d :: cs =>
    if isLeadSurrogate c && isTrailSurrogate d then
      (utf8Bytes (0x10000 + (c.toNat - 0xD800) * 0x400 + (d.toNat - 0xDC00))).map UInt8.ofNat ::
        charBytes cs
    else (utf8Bytes (loneUnit c).toNat).map UInt8.ofNat :: charBytes (d :: cs)

/-- `Buffer.from(text, 'utf8')`. -/
def utf8 (text : JsString) : Buffer := (charBytes text).flatten

/-- What fits in; no character is written in part. -/
def fitting : Nat → List Buffer → Buffer
  | _, [] => []
  | room, c :: cs => if c.length ≤ room then c ++ fitting (room - c.length) cs else []

/-- `buf.write(text, offset, length, 'utf8')`. -/
def write (buf : Buffer) (text : JsString) (offset length : Nat) : Buffer :=
  let bytes := fitting (min length (buf.length - offset)) (charBytes text)
  buf.take offset ++ bytes ++ buf.drop (offset + bytes.length)

/-- `n.toString(8).padStart(width, '0')`. -/
def octal (width n : Nat) : JsString :=
  let digits := (Nat.toDigits 8 n).map cu
  List.replicate (width - digits.length) (cu '0') ++ digits

/-- `string | Buffer`. -/
inductive Content where
  | text (content : JsString)
  | bytes (content : Buffer)

def Content.data : Content → Buffer
  | .text content => utf8 content
  | .bytes content => content

structure TarFile where
  name : JsString
  content : Content
  mode : Option Nat

def TarFile.modeOf (f : TarFile) : Nat := f.mode.getD 0o644

def TarFile.data (f : TarFile) : Buffer := f.content.data

/-- `Buffer.alloc(size, 0)`. -/
def alloc (size : Nat) : Buffer := List.replicate size 0

/-- The header with spaces for the checksum; the clock is in seconds. -/
def blankHeader (f : TarFile) (seconds : Nat) : Buffer :=
  let header := alloc 512
  let header := write header f.name 0 100
  let header := write header (octal 7 f.modeOf ++ [0]) 100 8
  let header := write header (js "0000000" ++ [0]) 108 8
  let header := write header (js "0000000" ++ [0]) 116 8
  let header := write header (octal 11 f.data.length ++ [0]) 124 12
  let header := write header (octal 11 seconds ++ [0]) 136 12
  let header := write header (js "        ") 148 8
  let header := write header (js "0") 156 1
  let header := write header (js "ustar" ++ [0]) 257 6
  write header (js "00") 263 2

def tarHeader (f : TarFile) (seconds : Nat) : Buffer :=
  let header := blankHeader f seconds
  write header (octal 6 (header.map UInt8.toNat).sum ++ [0, cu ' ']) 148 8

def tarEntry (f : TarFile) (seconds : Nat) : Buffer :=
  tarHeader f seconds ++ f.data ++ alloc ((512 - f.data.length % 512) % 512)

/-- The archive of some files, each with the time it is written at. -/
def tarFiles (files : List (TarFile × Nat)) : Buffer :=
  files.flatMap (fun f => tarEntry f.1 f.2) ++ alloc 1024

/-! ## What comes back -/

def TarFile.member (f : TarFile) : Ustar.Member := ⟨utf8 f.name, f.modeOf, f.data⟩

/-- The archive is in order and gives the files back, and that of one file gives its content back
however the stream is cut. -/
structure RoundTrips (files : List (TarFile × Nat)) : Prop where
  members : Ustar.read (tarFiles files) = some (files.map fun f => f.1.member)
  checksums : ∀ f ∈ files, Ustar.ChecksumValid (tarHeader f.1 f.2)
  blocks : 512 ∣ (tarFiles files).length
  single : ∀ f, files = [f] → ∀ chunks : List Buffer, chunks.flatten = tarFiles files →
    SingleFileUntar.feed SingleFileUntar.initial chunks = f.1.data

/-- The fields of a file have room in a header. -/
structure Fits (f : TarFile) : Prop where
  name : (utf8 f.name).length ≤ 100
  unended : 0 ∉ f.name
  mode : f.modeOf < 8 ^ 7
  size : f.data.length < 8 ^ 11

/-! ## Bytes -/

theorem charBytes_pair {c d : CodeUnit} (hc : isLeadSurrogate c = true)
    (hd : isTrailSurrogate d = true) (cs : JsString) :
    charBytes (c :: d :: cs) =
      (utf8Bytes (0x10000 + (c.toNat - 0xD800) * 0x400 + (d.toNat - 0xDC00))).map UInt8.ofNat ::
        charBytes cs := by
  simp [charBytes, hc, hd]

theorem charBytes_lone {c : CodeUnit} {cs : JsString}
    (h : ∀ d, cs.head? = some d → (isLeadSurrogate c && isTrailSurrogate d) = false) :
    charBytes (c :: cs) = (utf8Bytes (loneUnit c).toNat).map UInt8.ofNat :: charBytes cs := by
  cases cs with
  | nil => rfl
  | cons d cs => simp [charBytes, h d rfl]

/-- No byte of a character other than NUL is 0. -/
theorem zero_mem_utf8Bytes {p : Nat} (hp : p ≤ 0x10FFFF) :
    0 ∈ (utf8Bytes p).map UInt8.ofNat ↔ p = 0 := by
  have hbyte : ∀ n < 256, (0 : UInt8) = UInt8.ofNat n ↔ n = 0 := by
    intro n hn
    rw [← UInt8.toNat_inj, Utf8.toNat_byte hn]
    exact eq_comm
  unfold utf8Bytes
  split_ifs with h₁ h₂ h₃
  · simp only [map_cons, map_nil, mem_singleton]
    exact hbyte p (by omega)
  · simp only [map_cons, map_nil, mem_cons, not_mem_nil, or_false]
    rw [hbyte _ (by omega), hbyte _ (by omega)]
    omega
  · simp only [map_cons, map_nil, mem_cons, not_mem_nil, or_false]
    rw [hbyte _ (by omega), hbyte _ (by omega), hbyte _ (by omega)]
    omega
  · simp only [map_cons, map_nil, mem_cons, not_mem_nil, or_false]
    rw [hbyte _ (by omega), hbyte _ (by omega), hbyte _ (by omega), hbyte _ (by omega)]
    omega

theorem zero_mem_utf8 (text : JsString) : 0 ∈ utf8 text ↔ 0 ∈ text := by
  induction text using unit_induction with
  | nil => simp [utf8, charBytes]
  | pair c d cs hc hd ih =>
    simp only [isLeadSurrogate, isTrailSurrogate, Bool.and_eq_true, decide_eq_true_eq,
      UInt16.le_iff_toNat_le, UInt16.reduceToNat] at hc hd
    have hbytes := @zero_mem_utf8Bytes (0x10000 + (c.toNat - 0xD800) * 0x400 + (d.toNat - 0xDC00))
      (by omega)
    have hzero : ∀ x : CodeUnit, 0 < x.toNat → (0 : CodeUnit) ≠ x := by
      rintro x hx rfl
      exact absurd hx (by decide)
    rw [utf8, charBytes_pair (by simp [isLeadSurrogate, UInt16.le_iff_toNat_le, hc])
      (by simp [isTrailSurrogate, UInt16.le_iff_toNat_le, hd]), flatten_cons,
      mem_append, ← utf8, ih, hbytes, mem_cons, mem_cons]
    simp only [hzero c (by omega), hzero d (by omega), false_or]
    exact or_iff_right (by omega)
  | lone c cs h ih =>
    have hunit : (loneUnit c).toNat = 0 ↔ 0 = c := by
      rw [loneUnit]
      split_ifs with hsurrogate
      · refine ⟨fun h => absurd h (by decide), ?_⟩
        rintro rfl
        exact absurd hsurrogate (by decide)
      · rw [← UInt16.toNat_inj]
        exact eq_comm
    have hlt := (loneUnit c).toNat_lt
    rw [utf8, charBytes_lone h, flatten_cons, mem_append, ← utf8, ih,
      zero_mem_utf8Bytes (by omega), mem_cons, hunit]

/-! ASCII -/

def ascii (text : JsString) : Buffer := text.map fun c => UInt8.ofNat c.toNat

theorem charBytes_ascii {text : JsString} (h : ∀ c ∈ text, c.toNat < 0x80) :
    charBytes text = (ascii text).map fun b => [b] := by
  induction text using unit_induction with
  | nil => rfl
  | pair c d cs hc _ _ =>
    simp only [isLeadSurrogate, Bool.and_eq_true, decide_eq_true_eq, UInt16.le_iff_toNat_le,
      UInt16.reduceToNat] at hc
    have := h c mem_cons_self
    omega
  | lone c cs hlone ih =>
    have hc := h c mem_cons_self
    have hnot : isSurrogate c = false := by
      rw [← Bool.not_eq_true, isSurrogate, isLeadSurrogate, isTrailSurrogate]
      simp only [Bool.or_eq_true, Bool.and_eq_true, decide_eq_true_eq, UInt16.le_iff_toNat_le,
        UInt16.reduceToNat]
      omega
    rw [charBytes_lone hlone, loneUnit_of_not hnot, utf8Bytes, if_pos hc,
      ih fun d hd => h d (mem_cons_of_mem _ hd)]
    rfl

theorem fitting_single (room : Nat) (bytes : Buffer) :
    fitting room (bytes.map fun b => [b]) = bytes.take room := by
  induction bytes generalizing room with
  | nil => simp [fitting]
  | cons b bytes ih =>
    cases room with
    | zero => simp [fitting]
    | succ room => simp [fitting, ih]

theorem length_fitting_le (room : Nat) (chars : List Buffer) :
    (fitting room chars).length ≤ room := by
  induction chars generalizing room with
  | nil => exact Nat.zero_le _
  | cons c chars ih =>
    rw [fitting]
    split_ifs with hroom
    · have := ih (room - c.length)
      rw [length_append]
      omega
    · exact Nat.zero_le _

theorem fitting_eq {room : Nat} {chars : List Buffer} (h : chars.flatten.length ≤ room) :
    fitting room chars = chars.flatten := by
  induction chars generalizing room with
  | nil => rfl
  | cons c chars ih =>
    rw [flatten_cons, length_append] at h
    rw [fitting, if_pos (by omega), ih (by omega), flatten_cons]

/-! ## Fields -/

variable {buf : Buffer} {text : JsString} {offset length : Nat}

@[simp]
theorem length_write : (write buf text offset length).length = buf.length := by
  have hle := length_fitting_le (min length (buf.length - offset)) (charBytes text)
  simp only [write, length_append, length_take, length_drop]
  omega

theorem length_alloc (size : Nat) : (alloc size).length = size := length_replicate

variable {start n : Nat}

/-- A write leaves what is in front of it and behind it. -/
theorem field_write_of_apart (hapart : start + n ≤ offset ∨ offset + length ≤ start) :
    Ustar.field (write buf text offset length) start n = Ustar.field buf start n := by
  have hle := length_fitting_le (min length (buf.length - offset)) (charBytes text)
  by_cases hoffset : offset ≤ buf.length
  · have hlen : (buf.take offset).length = offset := by
      rw [length_take]
      omega
    rcases hapart with hfront | hbehind
    · rw [write, append_assoc, Ustar.field_append (by omega), Ustar.field, Ustar.field,
        drop_take, take_take, Nat.min_eq_left (by omega)]
    · have hbytes : (buf.take offset ++
          fitting (min length (buf.length - offset)) (charBytes text)).length ≤ start := by
        rw [length_append]
        omega
      rw [Ustar.field, Ustar.field, write, drop_append, drop_eq_nil_of_le hbytes,
        nil_append, drop_drop, length_append, hlen]
      congr 2
      omega
  · have hnil : fitting (min length (buf.length - offset)) (charBytes text) = [] :=
      length_eq_zero_iff.mp (by omega)
    have hsame : write buf text offset length = buf := by
      rw [write, hnil, append_nil, take_of_length_le (by omega),
        drop_eq_nil_of_le (by omega), append_nil]
    rw [hsame]

theorem field_write (h : offset + length ≤ buf.length) :
    Ustar.field (write buf text offset length) offset length = fitting length (charBytes text) ++
        (Ustar.field buf offset length).drop (fitting length (charBytes text)).length := by
  have hroom : min length (buf.length - offset) = length := by omega
  have hle := length_fitting_le length (charBytes text)
  have hlen : (buf.take offset).length = offset := by
    rw [length_take]
    omega
  rw [Ustar.field, Ustar.field, write, hroom, append_assoc, drop_left' hlen, drop_take,
    drop_drop, take_append, take_of_length_le hle]

/-! ## Numbers -/

def octalBytes (n : Nat) : Buffer := ascii ((Nat.toDigits 8 n).map cu)

theorem octalBytes_eq (n : Nat) :
    octalBytes n = (if n < 8 then [] else octalBytes (n / 8)) ++ [UInt8.ofNat (0x30 + n % 8)] := by
  have hdigit : ∀ d < 8, UInt8.ofNat (cu d.digitChar).toNat = UInt8.ofNat (0x30 + d) := by decide
  rw [octalBytes, Nat.toDigits_eq_if (by decide)]
  split_ifs with hn
  · rw [Nat.mod_eq_of_lt hn, ← hdigit n hn]
    rfl
  · rw [map_append, ascii, map_append, ← hdigit (n % 8) (Nat.mod_lt n (by decide))]
    rfl

theorem octalBytes_digits (n : Nat) :
    (∀ d ∈ octalBytes n, Ustar.isOctalDigit d = true) ∧ Ustar.value (octalBytes n) = n := by
  have hbyte : ∀ m, (UInt8.ofNat (0x30 + m % 8)).toNat = 0x30 + m % 8 :=
    fun m => Utf8.toNat_byte (by omega)
  induction n using Nat.strongRecOn with
  | ind n ih =>
    have hfront : (∀ d ∈ if n < 8 then [] else octalBytes (n / 8), Ustar.isOctalDigit d = true) ∧
        Ustar.value (if n < 8 then [] else octalBytes (n / 8)) = n / 8 := by
      split_ifs with hn
      · exact ⟨fun d hd => (by cases hd), (Nat.div_eq_of_lt hn).symm⟩
      · exact ih (n / 8) (by omega)
    rw [octalBytes_eq]
    constructor
    · intro d hd
      rcases mem_append.mp hd with hd | hd
      · exact hfront.1 d hd
      · rw [mem_singleton.mp hd, Ustar.isOctalDigit_iff, hbyte]
        omega
    · rw [Ustar.value, foldl_append, foldl_cons, foldl_nil, ← Ustar.value, hfront.2, hbyte]
      omega

variable {width : Nat}

theorem length_octalBytes_le_iff (h : 0 < width) :
    (octalBytes n).length ≤ width ↔ n < 8 ^ width := by
  rw [octalBytes, ascii, length_map, length_map]
  exact Nat.length_toDigits_le_iff (by decide) h

theorem ascii_octal (width n : Nat) : ascii (octal width n) =
      replicate (width - (octalBytes n).length) 0x30 ++ octalBytes n := by
  have hzero : UInt8.ofNat (cu '0').toNat = 0x30 := by decide
  simp only [octal, octalBytes, ascii, map_append, map_replicate, hzero, length_map]

theorem octal_digits (width n : Nat) : (∀ d ∈ ascii (octal width n), Ustar.isOctalDigit d = true) ∧
    Ustar.value (ascii (octal width n)) = n ∧ width ≤ (ascii (octal width n)).length ∧
      ascii (octal width n) ≠ [] := by
  obtain ⟨hdigits, hvalue⟩ := octalBytes_digits n
  have hzeros : ∀ k, (replicate k (0x30 : UInt8)).foldl
      (fun n d => 8 * n + (d.toNat - 0x30)) 0 = 0 := by
    intro k
    induction k with
    | zero => rfl
    | succ k ih => exact ih
  rw [ascii_octal]
  refine ⟨fun d hd => ?_, ?_, ?_, ?_⟩
  · rcases mem_append.mp hd with hd | hd
    · rw [eq_of_mem_replicate hd]
      rfl
    · exact hdigits d hd
  · rw [Ustar.value, foldl_append, hzeros, ← Ustar.value, hvalue]
  · rw [length_append, length_replicate]
    omega
  · rw [octalBytes_eq, ← append_assoc]
    exact append_ne_nil_of_right_ne_nil _ (cons_ne_nil _ _)

theorem ascii_of_octal : ∀ c ∈ octal width n, c.toNat < 0x80 := by
  intro c hc
  rw [octal] at hc
  rcases mem_append.mp hc with hc | hc
  · rw [eq_of_mem_replicate hc]
    decide
  · obtain ⟨x, hx, rfl⟩ := mem_map.mp hc
    have hdigit := Nat.isDigit_of_mem_toDigits (by decide) (by decide) hx
    simp only [Char.isDigit, Bool.and_eq_true, decide_eq_true_eq] at hdigit
    have hle : x.toNat ≤ 57 := hdigit.2
    rw [toNat_cu (by omega)]
    omega

theorem ascii_ended (width n : Nat) : ascii (octal width n ++ [0]) = ascii (octal width n) ++ [0] :=
  map_append

/-- A number that has room stands in its field as a whole. -/
theorem take_octal (h : 0 < width) (hn : n < 8 ^ width) :
    (ascii (octal width n ++ [0])).take (width + 1) = ascii (octal width n) ++ [0] := by
  have hle := (length_octalBytes_le_iff h).mpr hn
  rw [ascii_ended, take_of_length_le]
  rw [length_append, ascii_octal, length_append, length_replicate, length_singleton]
  omega

/-- **A number that has room is read, and one that has not is not.** -/
theorem number_octal (h : 0 < width) :
    Ustar.number ((ascii (octal width n ++ [0])).take (width + 1)) =
      if n < 8 ^ width then some n else none := by
  obtain ⟨hdigits, hvalue, -, hne⟩ := octal_digits width n
  split_ifs with hn
  · rw [take_octal h hn, Ustar.number_digits hne hdigits (cons_ne_nil _ _) (by simp), hvalue]
  · have hmore : width + 1 ≤ (ascii (octal width n)).length := by
      have hlt := mt (length_octalBytes_le_iff h).mp hn
      rw [ascii_octal, length_append]
      omega
    rw [ascii_ended, take_append_of_le_length hmore]
    exact Ustar.number_unended fun d hd => hdigits d (mem_of_mem_take hd)

/-! ## Headers -/

variable {f : TarFile} {seconds : Nat}

theorem field_write_ascii (h : offset + length ≤ buf.length) (hascii : ∀ c ∈ text, c.toNat < 0x80)
    (hfull : length ≤ text.length) :
    Ustar.field (write buf text offset length) offset length = (ascii text).take length := by
  have hlen : length ≤ (ascii text).length := by rwa [ascii, length_map]
  have hfield : (Ustar.field buf offset length).length = length := by
    rw [Ustar.field, length_take, length_drop]
    omega
  rw [field_write h, charBytes_ascii hascii, fitting_single, length_take, Nat.min_eq_left hlen,
    drop_eq_nil_of_le (by omega), append_nil]

theorem length_blankHeader : (blankHeader f seconds).length = 512 := by
  simp only [blankHeader, length_write, length_alloc]

theorem length_tarHeader : (tarHeader f seconds).length = 512 := by
  rw [tarHeader, length_write, length_blankHeader]

theorem field_alloc (h : start + n ≤ 512) : Ustar.field (alloc 512) start n = replicate n 0 := by
  rw [Ustar.field, alloc, drop_replicate, take_replicate, Nat.min_eq_left (by omega)]

theorem field_name : Ustar.field (blankHeader f seconds) 0 100 = fitting 100 (charBytes f.name) ++
      replicate (100 - (fitting 100 (charBytes f.name)).length) 0 := by
  simp (disch := decide) only [blankHeader, field_write_of_apart]
  rw [field_write (by rw [length_alloc]; decide), field_alloc (by decide), drop_replicate]

/-- The fields for numbers end with a NUL. -/
theorem field_octal (h : offset + (width + 1) ≤ buf.length) :
    Ustar.field (write buf (octal width n ++ [0]) offset (width + 1)) offset (width + 1) =
      (ascii (octal width n ++ [0])).take (width + 1) := by
  have hascii : ∀ c ∈ octal width n ++ [0], c.toNat < 0x80 := by
    intro c hc
    rcases mem_append.mp hc with hc | hc
    · exact ascii_of_octal c hc
    · rw [mem_singleton.mp hc]
      decide
  have hfull : width + 1 ≤ (octal width n ++ [0]).length := by
    have hlen := (octal_digits width n).2.2.1
    rw [ascii, length_map] at hlen
    rw [length_append, length_singleton]
    omega
  exact field_write_ascii h hascii hfull

theorem field_mode :
    Ustar.field (blankHeader f seconds) 100 8 = (ascii (octal 7 f.modeOf ++ [0])).take 8 := by
  simp (disch := decide) only [blankHeader, field_write_of_apart]
  exact field_octal (by simp only [length_write, length_alloc]; decide)

theorem field_size : Ustar.field (blankHeader f seconds) 124 12 =
      (ascii (octal 11 f.data.length ++ [0])).take 12 := by
  simp (disch := decide) only [blankHeader, field_write_of_apart]
  exact field_octal (by simp only [length_write, length_alloc]; decide)

/-- A field that is written the same for every file. -/
theorem field_fixed (h : offset + length ≤ buf.length) {bytes : Buffer}
    (hbytes : charBytes text = bytes.map fun b => [b]) (hfull : bytes.length = length) :
    Ustar.field (write buf text offset length) offset length = bytes := by
  have hfield : (Ustar.field buf offset length).length = length := by
    rw [Ustar.field, length_take, length_drop]
    omega
  rw [field_write h, hbytes, fitting_single, take_of_length_le (by omega),
    drop_eq_nil_of_le (by omega), append_nil]

theorem field_checksum : Ustar.field (blankHeader f seconds) 148 8 = replicate 8 0x20 := by
  simp (disch := decide) only [blankHeader, field_write_of_apart]
  exact field_fixed (by simp only [length_write, length_alloc]; decide) (by decide) rfl

theorem field_typeflag : Ustar.field (blankHeader f seconds) 156 1 = [0x30] := by
  simp (disch := decide) only [blankHeader, field_write_of_apart]
  exact field_fixed (by simp only [length_write, length_alloc]; decide) (by decide) rfl

theorem field_magic : Ustar.field (blankHeader f seconds) 257 6 = Ustar.magic := by
  simp (disch := decide) only [blankHeader, field_write_of_apart]
  exact field_fixed (by simp only [length_write, length_alloc]; decide) (by decide) rfl

theorem field_version : Ustar.field (blankHeader f seconds) 263 2 = Ustar.version := by
  rw [blankHeader]
  exact field_fixed (by simp only [length_write, length_alloc]; decide) (by decide) rfl

theorem field_prefix : Ustar.field (blankHeader f seconds) 345 155 = replicate 155 0 := by
  simp (disch := decide) only [blankHeader, field_write_of_apart]
  exact field_alloc (by decide)

/-- The checksum is written in the place of the spaces. -/
theorem field_tarHeader (h : start + n ≤ 148 ∨ 156 ≤ start) :
    Ustar.field (tarHeader f seconds) start n = Ustar.field (blankHeader f seconds) start n :=
  field_write_of_apart h

theorem sum_le (bytes : Buffer) : (bytes.map UInt8.toNat).sum ≤ 255 * bytes.length := by
  induction bytes with
  | nil => exact Nat.le_refl _
  | cons b bytes ih =>
    have hb := b.toNat_lt
    rw [map_cons, sum_cons, length_cons]
    omega

theorem checksum_tarHeader :
    Ustar.checksum (tarHeader f seconds) = ((blankHeader f seconds).map UInt8.toNat).sum := by
  have hbehind : ∀ {block : Buffer}, block.length = 512 →
      block.drop 156 = Ustar.field block 156 356 := by
    intro block hblock
    rw [Ustar.field, take_of_length_le]
    rw [length_drop]
    omega
  have hblock : blankHeader f seconds = Ustar.field (blankHeader f seconds) 0 148 ++
      Ustar.field (blankHeader f seconds) 148 8 ++ (blankHeader f seconds).drop 156 := by
    rw [Ustar.field, Ustar.field, drop_zero, append_assoc]
    conv_lhs => rw [← take_append_drop 148 (blankHeader f seconds),
      ← take_append_drop 8 ((blankHeader f seconds).drop 148), drop_drop]
  rw [Ustar.checksum, hbehind length_tarHeader, field_tarHeader (by decide),
    field_tarHeader (by decide),
    ← field_checksum, ← hbehind length_blankHeader, ← hblock]

/-- **Every checksum is valid.** -/
theorem checksumValid_tarHeader : Ustar.ChecksumValid (tarHeader f seconds) := by
  have hsum : ((blankHeader f seconds).map UInt8.toNat).sum < 8 ^ 6 := by
    have hle := sum_le (blankHeader f seconds)
    rw [length_blankHeader] at hle
    omega
  obtain ⟨hdigits, hvalue, hlen, hne⟩ :=
    octal_digits 6 ((blankHeader f seconds).map UInt8.toNat).sum
  have hlen' := (length_octalBytes_le_iff (by decide)).mpr hsum
  rw [Ustar.ChecksumValid, checksum_tarHeader, tarHeader]
  generalize ((blankHeader f seconds).map UInt8.toNat).sum = sum at *
  have hsix : (ascii (octal 6 sum)).length = 6 := by
    rw [ascii_octal, length_append, length_replicate]
    omega
  have hascii : ascii (octal 6 sum ++ [0, cu ' ']) = ascii (octal 6 sum) ++ [0, 0x20] := map_append
  have hchars : ∀ c ∈ octal 6 sum ++ [0, cu ' '], c.toNat < 0x80 := by
    intro c hc
    rcases mem_append.mp hc with hc | hc
    · exact ascii_of_octal c hc
    · simp only [mem_cons, not_mem_nil, or_false] at hc
      rcases hc with rfl | rfl
      · decide
      · decide
  have hfull : 8 ≤ (octal 6 sum ++ [0, cu ' ']).length := by
    rw [ascii, length_map] at hsix
    rw [length_append, hsix]
    decide
  rw [field_write_ascii (by rw [length_blankHeader]; decide) hchars hfull, hascii,
    take_of_length_le (by rw [length_append, hsix]; decide),
    Ustar.number_digits hne hdigits (cons_ne_nil _ _) (by simp), hvalue]

/-! ## What a header says -/

def storedName (f : TarFile) : Buffer :=
  Ustar.text (fitting 100 (charBytes f.name) ++
    List.replicate (100 - (fitting 100 (charBytes f.name)).length) 0)

theorem nameOf_tarHeader : Ustar.nameOf (tarHeader f seconds) = storedName f := by
  have hempty : Ustar.text (replicate 155 0) = [] := rfl
  rw [Ustar.nameOf, field_tarHeader (by decide), field_tarHeader (by decide), field_prefix, hempty,
    field_name]
  exact if_pos rfl

theorem header_tarHeader (h : Ustar.Header) : Ustar.header (tarHeader f seconds) = some h ↔
    storedName f = h.name ∧ (f.modeOf < 8 ^ 7 ∧ f.modeOf = h.mode) ∧
      f.data.length < 8 ^ 11 ∧ f.data.length = h.size := by
  have hread : ∀ {n bound size : Nat}, (if n < bound then some n else none) = some size ↔
      n < bound ∧ n = size := by
    intro n bound size
    split_ifs with hn
    · simp [hn]
    · simp [hn]
  rw [Ustar.header_eq_some_iff, nameOf_tarHeader, field_tarHeader (by decide), field_magic,
    field_tarHeader (by decide), field_version, field_tarHeader (by decide), field_typeflag,
    field_tarHeader (by decide), field_mode, number_octal (by decide), field_tarHeader (by decide),
    field_size, number_octal (by decide), hread, hread]
  exact and_iff_right ⟨rfl, rfl, Or.inl rfl, checksumValid_tarHeader⟩

/-- A name comes back if it fits and has no NUL. -/
theorem storedName_eq_iff :
    storedName f = utf8 f.name ↔ (utf8 f.name).length ≤ 100 ∧ 0 ∉ f.name := by
  have hle := length_fitting_le 100 (charBytes f.name)
  rw [← zero_mem_utf8]
  constructor
  · intro h
    rw [← h]
    constructor
    · have hstored : (storedName f).length ≤ _ := (List.takeWhile_prefix _).length_le
      rw [length_append, length_replicate] at hstored
      omega
    · intro hmem
      have hne := mem_takeWhile_imp hmem
      simp at hne
  · rintro ⟨hlen, hzero⟩
    have hkeep : ∀ b ∈ utf8 f.name, decide (b ≠ 0) = true := by
      intro b hb
      rw [decide_eq_true_iff]
      rintro rfl
      exact hzero hb
    rw [storedName, fitting_eq hlen, ← utf8, Ustar.text, takeWhile_append_of_pos hkeep]
    cases 100 - (utf8 f.name).length with
    | zero => simp
    | succ n => simp [replicate_succ]

/-- **A file fits exactly when its header says what it is.** -/
theorem fits_iff : Fits f ↔
    Ustar.header (tarHeader f seconds) = some ⟨utf8 f.name, f.modeOf, f.data.length⟩ := by
  rw [header_tarHeader, storedName_eq_iff]
  constructor
  · rintro ⟨hname, hzero, hmode, hsize⟩
    exact ⟨⟨hname, hzero⟩, ⟨hmode, rfl⟩, hsize, rfl⟩
  · rintro ⟨⟨hname, hzero⟩, ⟨hmode, -⟩, hsize, -⟩
    exact ⟨hname, hzero, hmode, hsize⟩

/-! ## Archives -/

theorem length_fill (n : Nat) : n + (alloc ((512 - n % 512) % 512)).length = Ustar.padded n := by
  rw [length_alloc, Ustar.padded]
  omega

theorem tarFiles_cons (f : TarFile) (seconds : Nat) (files : List (TarFile × Nat)) :
    tarFiles ((f, seconds) :: files) = tarEntry f seconds ++ tarFiles files := by
  rw [tarFiles, flatMap_cons, append_assoc]
  rfl

theorem read_tarEntry (h : Fits f) (rest : Buffer) : Ustar.read (tarEntry f seconds ++ rest) =
    (Ustar.read rest).map (f.member :: ·) :=
  Ustar.read_member length_tarHeader (fits_iff.mp h) rfl (length_fill _) rest

/-- **The files are read back exactly if they all fit.** -/
theorem read_tarFiles_iff (files : List (TarFile × Nat)) :
    Ustar.read (tarFiles files) = some (files.map fun f => f.1.member) ↔ ∀ f ∈ files, Fits f.1 := by
  induction files with
  | nil => exact iff_of_true Ustar.read_zeros fun f hf => by cases hf
  | cons e files ih =>
    obtain ⟨f, seconds⟩ := e
    rw [tarFiles_cons, map_cons, forall_mem_cons, ← ih]
    constructor
    · intro hread
      have hfits : Fits f := by
        rw [tarEntry, append_assoc, append_assoc] at hread
        obtain ⟨⟨name, mode, size⟩, hheader, hname, hmode, hsize⟩ :=
          Ustar.eq_of_read_cons length_tarHeader hread
        refine (@fits_iff f seconds).mpr ?_
        rw [hheader, some.injEq, Ustar.Header.mk.injEq]
        exact ⟨hname.symm, hmode.symm, hsize.symm⟩
      refine ⟨hfits, ?_⟩
      rw [read_tarEntry hfits] at hread
      obtain ⟨ms, hms, heq⟩ := map_eq_some_iff.mp hread
      rw [hms, (List.cons.inj heq).2]
    · rintro ⟨hfits, hrest⟩
      rw [read_tarEntry hfits, hrest]
      rfl

theorem length_tarFiles (files : List (TarFile × Nat)) : 512 ∣ (tarFiles files).length := by
  induction files with
  | nil => exact ⟨2, length_alloc 1024⟩
  | cons e files ih =>
    obtain ⟨f, seconds⟩ := e
    rw [tarFiles_cons, length_append]
    refine Nat.dvd_add ?_ ih
    rw [tarEntry, append_assoc, length_append, length_append, length_tarHeader, length_fill,
      Ustar.padded]
    exact Nat.dvd_add (Nat.dvd_refl _) (Nat.dvd_mul_left _ _)

/-- The size is stated as the reader of single files wants it. -/
theorem stated_size (h : Fits f) :
    SingleFileUntar.Octal (subarray (tarHeader f seconds) 124 136) f.data.length := by
  obtain ⟨hdigits, hvalue, -, hne⟩ := octal_digits 11 f.data.length
  have hfield : subarray (tarHeader f seconds) 124 136 = ascii (octal 11 f.data.length) ++ [0] := by
    rw [subarray, drop_take]
    show Ustar.field (tarHeader f seconds) 124 12 = _
    rw [field_tarHeader (by decide), field_size, take_octal (by decide) h.size]
  refine ⟨0, ascii (octal 11 f.data.length), [0], hfield, hne, ?_, by simp, hvalue⟩
  exact fun d hd => Ustar.isOctalDigit_iff.mp (hdigits d hd)

theorem feed_tarFiles (h : Fits f) {chunks : List Buffer}
    (hchunks : chunks.flatten = tarFiles [(f, seconds)]) :
    SingleFileUntar.feed SingleFileUntar.initial chunks = f.data := by
  have hstated := @stated_size f seconds h
  have hbytes : tarFiles [(f, seconds)] = SingleFileUntar.Archive.bytes
      ⟨⟨tarHeader f seconds, f.data, length_tarHeader⟩, [], alloc 1024, Or.inl hstated⟩ := by
    rw [tarFiles, flatMap_singleton, SingleFileUntar.Archive.bytes, flatMap_nil, append_nil]
    rfl
  rw [hbytes] at hchunks
  exact (SingleFileUntar.feed_archive _ hchunks).1 hstated

/-- **An archive gives its files back exactly if each of them fits**: its name has at most 100 bytes
and no NUL, and its mode and its size have room. -/
theorem roundTrips_iff (files : List (TarFile × Nat)) :
    RoundTrips files ↔ ∀ f ∈ files, Fits f.1 := by
  refine ⟨fun h => (read_tarFiles_iff files).mp h.members, fun h => ?_⟩
  refine ⟨(read_tarFiles_iff files).mpr h, fun _ _ => checksumValid_tarHeader,
    length_tarFiles files, ?_⟩
  rintro ⟨f, seconds⟩ rfl chunks hchunks
  exact feed_tarFiles (h _ List.mem_cons_self) hchunks

/-! ## The mounts of a stack -/

open ImportedMounts (Mount filePath)

/-- `/^[a-zA-Z0-9][a-zA-Z0-9._-]{0,63}$/` -/
def isMountName : JsString → Bool
  | [] => false
  | c :: cs => (isLetter c || isDigit c) && cs.length ≤ 63 &&
      cs.all fun c => isLetter c || isDigit c || c = cu '.' || c = cu '_' || c = cu '-'

/-- A file mount of a stack that the API has taken.  Without a name it gets the last part of its
path, in which only NUL and `/` cannot stand. -/
structure Accepted (m : Mount) : Prop where
  service : ∃ s, m.service = some s ∧ Compose.isServiceName s = true
  name : ∃ n, m.name = some n ∧ (isMountName n = true ∨ (0 ∉ n ∧ cu '/' ∉ n ∧ n.length ≤ 1000))
  content : (m.content.getD []).length ≤ 200000

/-- What `prepareMounts` sends. -/
def mountFiles (mounts : List Mount) : List TarFile :=
  (mounts.filter fun m => m.type = .file).map fun m =>
    ⟨filePath m, .text (m.content.getD []), none⟩

/-- A character has at most three bytes for every unit. -/
theorem length_utf8_le (text : JsString) : (utf8 text).length ≤ 3 * text.length := by
  have hbytes : ∀ p, (utf8Bytes p).length ≤ 4 ∧ (p < 0x10000 → (utf8Bytes p).length ≤ 3) := by
    intro p
    unfold utf8Bytes
    split_ifs with h₁ h₂ h₃
    · simp
    · simp
    · simp
    · exact ⟨Nat.le_refl _, fun hp => absurd hp h₃⟩
  induction text using unit_induction with
  | nil => exact Nat.le_refl _
  | pair c d cs hc hd ih =>
    have hfour := (hbytes (0x10000 + (c.toNat - 0xD800) * 0x400 + (d.toNat - 0xDC00))).1
    rw [utf8] at ih
    rw [utf8, charBytes_pair hc hd, flatten_cons, length_append, length_map,
      length_cons, length_cons]
    omega
  | lone c cs h ih =>
    have hthree := (hbytes (loneUnit c).toNat).2 (loneUnit c).toNat_lt
    rw [utf8] at ih
    rw [utf8, charBytes_lone h, flatten_cons, length_append, length_map, length_cons]
    omega

theorem not_zero_mem_filePath {m : Mount} (h : Accepted m) : 0 ∉ filePath m := by
  obtain ⟨⟨service, hservice, hs⟩, ⟨name, hname, hn⟩, -⟩ := h
  rw [Compose.isServiceName, Bool.and_eq_true] at hs
  have hszero : 0 ∉ service := fun hmem => absurd (all_eq_true.mp hs.2 0 hmem) (by decide)
  have hnzero : 0 ∉ name := by
    rcases hn with hn | ⟨hn, -, -⟩
    · intro hmem
      cases name with
      | nil => cases hmem
      | cons c cs =>
        simp only [isMountName, Bool.and_eq_true] at hn
        rcases mem_cons.mp hmem with rfl | hmem
        · exact absurd hn.1.1 (by decide)
        · exact absurd (all_eq_true.mp hn.2 0 hmem) (by decide)
    · exact hn
  have hgiven : ImportedMounts.given m.service = some service := by
    rw [ImportedMounts.given_eq_some]
    refine ⟨hservice, ?_⟩
    rintro rfl
    exact absurd hs.1 (by decide)
  rw [filePath, hgiven, hname, getD_some]
  intro hmem
  rcases mem_append.mp hmem with hmem | hmem
  · exact hszero hmem
  · rcases mem_cons.mp hmem with hslash | hmem
    · exact absurd hslash (by decide)
    · exact hnzero hmem

/-- **For the mounts of a stack it is their paths that must fit.** -/
theorem mounts_roundTrip_iff {mounts : List Mount} (h : ∀ m ∈ mounts, Accepted m) (seconds : Nat) :
    RoundTrips ((mountFiles mounts).map (·, seconds)) ↔
      ∀ m ∈ mounts, m.type = .file → (utf8 (filePath m)).length ≤ 100 := by
  rw [roundTrips_iff, List.forall_mem_map, mountFiles, List.forall_mem_map]
  constructor
  · intro hfits m hm htype
    exact (hfits m (mem_filter.mpr ⟨hm, decide_eq_true htype⟩)).name
  · intro hlen m hm
    obtain ⟨hm, htype⟩ := mem_filter.mp hm
    have hcontent := (h m hm).content
    have hbytes := length_utf8_le (m.content.getD [])
    refine ⟨hlen m hm (of_decide_eq_true htype), not_zero_mem_filePath (h m hm), ?_, ?_⟩
    · show 0o644 < 8 ^ 7
      decide
    · show (utf8 (m.content.getD [])).length < 8 ^ 11
      omega

/-- A file of a service with a long name. -/
def longMount : Mount where
  type := .file
  service := some (List.replicate 60 (cu 'a'))
  name := some (List.replicate 50 (cu 'b'))
  hostPath := none
  content := some (js "secret")
  containerPath := js "/run/secret"
  readOnly := true

theorem long_mount_roundTrip : RoundTrips ((mountFiles [longMount]).map (·, 0)) ↔
    ∀ m ∈ [longMount], m.type = .file → (utf8 (filePath m)).length ≤ 100 := by
  refine mounts_roundTrip_iff (fun m hm => ?_) 0
  obtain rfl := mem_singleton.mp hm
  exact ⟨⟨_, rfl, by decide⟩, ⟨_, rfl, .inl (by decide)⟩, by decide⟩

/-- The last of its name is cut off. -/
theorem long_path_cut : ¬ ∀ mounts : List Mount, (∀ m ∈ mounts, Accepted m) → ∀ seconds,
    RoundTrips ((mountFiles mounts).map (·, seconds)) := by
  intro h
  have haccepted : ∀ m ∈ [longMount], Accepted m := by
    intro m hm
    obtain rfl := List.mem_singleton.mp hm
    exact ⟨⟨_, rfl, by decide⟩, ⟨_, rfl, Or.inl (by decide)⟩, by decide⟩
  have hfits := (read_tarFiles_iff _).mp (h [longMount] haccepted 0).members _ List.mem_cons_self
  have hname := hfits.name
  revert hname
  decide

end Aoox.TarArchive
