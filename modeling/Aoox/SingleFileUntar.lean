import Aoox.DockerFrames
import Aoox.SetValues
import Mathlib

/-! # The file of an archive

Backups are read out of a container as a tar stream.  `SingleFileUntar` takes the size out of the
first 512 bytes and hands on that many of the bytes behind them, wherever the chunks end
(`feed_eq`).  It does not look at the kind of the entry.  An archive may begin with entries that
are no file, such as the PAX headers in front of a file with a long name or a large size; what is
handed on then is the data of the first of these.
-/
namespace Aoox.SingleFileUntar
open JsString DockerFrames List Bool

/-! ## The reader -/

/-- `buf.toString('ascii')`: the highest bit of each byte is cleared. -/
def toAscii (buf : Buffer) : JsString := buf.map fun b => (b.toNat % 128).toUInt16

def isOctalDigit (c : CodeUnit) : Bool := cu '0' ≤ c && c ≤ cu '7'

/-- `parseInt(text, 8)`; `none` is `NaN`. -/
def parseOctal (text : JsString) : Option Int :=
  let (negative, digits) := match trimStart text with
    | [] => (false, [])
    | c :: cs => if c = cu '-' then (true, cs) else if c =
        cu '+' then (false, cs) else (false, c :: cs)
  let digits := digits.takeWhile isOctalDigit
  if digits = [] then none
  else
    let n : Nat := digits.foldl (fun n c => 8 * n + (c.toNat - 48)) 0
    some (if negative then -n else n)

/-- The size in a header; `NaN` counts as 0. -/
def readSize (header : Buffer) : Int :=
  (parseOctal (trim (toAscii (subarray header 124 136)))).getD 0

structure Untar where
  header : Buffer
  remaining : Int

def initial : Untar := ⟨[], -1⟩

/-- The bytes of the file in the next chunk of the stream. -/
def push (u : Untar) (chunk : Buffer) : Buffer × Untar :=
  if u.remaining < 0 then
    let header := u.header ++ chunk
    if header.length < 512 then ([], { u with header := header })
    else
      let remaining := readSize header
      let buf := header.drop 512
      if remaining ≤ 0 then ([], ⟨[], remaining⟩)
      else
        let out := buf.take remaining.toNat
        (out, ⟨[], remaining - out.length⟩)
  else if u.remaining ≤ 0 then ([], u)
  else
    let out := chunk.take u.remaining.toNat
    (out, { u with remaining := u.remaining - out.length })

/-- All it hands on of a stream in chunks. -/
def feed (u : Untar) : List Buffer → Buffer
  | [] => []
  | chunk :: chunks => (push u chunk).1 ++ feed (push u chunk).2 chunks

/-! ## Chunks -/

theorem feed_body (r : Nat) (header : Buffer) (chunks : List Buffer) :
    feed ⟨header, r⟩ chunks = chunks.flatten.take r := by
  induction chunks generalizing r with
  | nil => simp [feed]
  | cons chunk chunks ih =>
    have hneg : ¬ ((r : Int) < 0) := by omega
    rw [flatten_cons, take_append]
    cases r with
    | zero =>
      have hpush : push ⟨header, (0 : Nat)⟩ chunk = ([], ⟨header, (0 : Nat)⟩) := rfl
      rw [feed, hpush, ih]
      simp
    | succ r =>
      have hpos : ¬ (((r + 1 : Nat) : Int) ≤ 0) := by omega
      have hlen : (((r + 1 : Nat) : Int) - (chunk.take (r + 1)).length) =
          ((r + 1 - chunk.length : Nat) : Int) := by
        rw [length_take]
        omega
      rw [feed, push, if_neg hneg, if_neg hpos]
      simp only [Int.toNat_natCast, hlen]
      rw [ih]

theorem subarray_append {a : Buffer} {start stop : Nat} (h : stop ≤ a.length) (b : Buffer) :
    subarray (a ++ b) start stop = subarray a start stop := by
  rw [subarray, subarray, take_append_of_le_length h]

/-- **Wherever the chunks end, what is handed on is as many bytes behind the first header as it
says.** -/
theorem feed_header {header : Buffer} (hshort : header.length < 512) (chunks : List Buffer)
    (hsize : 0 ≤ readSize (header ++ chunks.flatten)) :
    feed ⟨header, -1⟩ chunks =
      ((header ++ chunks.flatten).drop 512).take (readSize (header ++ chunks.flatten)).toNat := by
  induction chunks generalizing header with
  | nil =>
    have hdrop : (header ++ ([] : List Buffer).flatten).drop 512 = [] :=
      drop_eq_nil_of_le (by simp; omega)
    rw [hdrop]
    simp [feed]
  | cons chunk chunks ih =>
    rw [flatten_cons, ← append_assoc] at hsize ⊢
    by_cases hlen : (header ++ chunk).length < 512
    · have hpush : push ⟨header, -1⟩ chunk = ([], ⟨header ++ chunk, -1⟩) := by
        rw [push, if_pos (show (-1 : Int) < 0 by decide)]
        exact if_pos hlen
      rw [feed, hpush]
      exact ih hlen hsize
    · -- the header is complete, and what follows does not change what it says
      have hpush : push ⟨header, -1⟩ chunk =
          if readSize (header ++ chunk) ≤ 0 then ([], ⟨[], readSize (header ++ chunk)⟩)
          else (((header ++ chunk).drop 512).take (readSize (header ++ chunk)).toNat,
            ⟨[], readSize (header ++ chunk) -
              (((header ++ chunk).drop 512).take (readSize (header ++ chunk)).toNat).length⟩) := by
        rw [push, if_pos (show (-1 : Int) < 0 by decide)]
        exact if_neg hlen
      rw [feed, hpush]
      generalize header ++ chunk = whole at hlen hsize ⊢
      have hread : readSize (whole ++ chunks.flatten) = readSize whole := by
        rw [readSize, readSize, subarray_append (by omega)]
      rw [hread] at hsize ⊢
      obtain ⟨n, hn⟩ := Int.eq_ofNat_of_zero_le hsize
      rw [hn, Int.toNat_natCast, drop_append_of_le_length (by omega), take_append]
      by_cases hzero : (n : Int) ≤ 0
      · obtain rfl : n = 0 := by omega
        rw [if_pos hzero, feed_body]
        simp
      · have hrest : (n : Int) - ((whole.drop 512).take n).length =
            ((n - (whole.drop 512).length : Nat) : Int) := by
          rw [length_take]
          omega
        rw [if_neg hzero, hrest, feed_body]

theorem feed_eq (chunks : List Buffer) (hsize : 0 ≤ readSize chunks.flatten) :
    feed initial chunks = (chunks.flatten.drop 512).take (readSize chunks.flatten).toNat :=
  @feed_header [] (by decide) chunks hsize

/-! ## Archives -/

/-- A number in octal digits, perhaps behind spaces, ended by spaces or NULs. -/
def Octal (field : Buffer) (n : Nat) : Prop :=
  ∃ (k : Nat) (digits stop : Buffer), field =
    List.replicate k 0x20 ++ digits ++ stop ∧ digits ≠ [] ∧
    (∀ d ∈ digits, 0x30 ≤ d.toNat ∧ d.toNat ≤ 0x37) ∧ (∀ s ∈ stop, s = 0 ∨ s = 0x20) ∧
    digits.foldl (fun n d => 8 * n + (d.toNat - 0x30)) 0 = n

/-- A number in binary behind a marker byte. -/
def Binary (field : Buffer) (n : Nat) : Prop := ∃ bytes, field = 0x80 :: bytes ∧ bigEndian bytes = n

/-- An entry: a header block and its data. -/
structure Entry where
  (header data : Buffer)
  header_length : header.length = 512

def Entry.size (e : Entry) : Buffer := subarray e.header 124 136

/-- The typeflag of a regular file. -/
def Entry.regular (e : Entry) : Bool := e.header.getD 156 0 ∈ ([0x30, 0, 0x37] : Buffer)

/-- The data is filled up to whole blocks. -/
def Entry.bytes (e : Entry) : Buffer :=
  e.header ++ e.data ++ List.replicate ((512 - e.data.length % 512) % 512) 0

/-- An archive whose first header says how long its data is.  The length of a later entry may be
said elsewhere, as in a PAX header before it. -/
structure Archive where
  first : Entry
  rest : List Entry
  trailer : Buffer
  stated : Octal first.size first.data.length ∨ Binary first.size first.data.length

def Archive.bytes (a : Archive) : Buffer := a.first.bytes ++ a.rest.flatMap Entry.bytes ++ a.trailer

def Archive.file (a : Archive) : Option Entry := (a.first :: a.rest).find? Entry.regular

/-! ## Reading the size -/

theorem toAscii_append (a b : Buffer) : toAscii (a ++ b) = toAscii a ++ toAscii b := map_append

theorem toNat_toAscii (b : UInt8) : (b.toNat % 128).toUInt16.toNat = b.toNat % 128 := by
  have hb : b.toNat % 128 < 2 ^ 16 := by omega
  exact UInt16.toNat_ofNat_of_lt' hb

theorem rdropWhile_append {α : Type} {p : α → Bool} {a : List α} (hne : a ≠ [])
    (h : ∀ x ∈ a, p x = false) (b : List α) :
    ∃ b', b' <+: b ∧ (a ++ b).rdropWhile p = a ++ b' := by
  induction b using reverseRecOn with
  | nil =>
    refine ⟨[], prefix_refl _, ?_⟩
    rw [append_nil, rdropWhile_eq_self_iff]
    exact fun _ => by simp [h _ (getLast_mem hne)]
  | append_singleton b x ih =>
    obtain ⟨b', hpre, hb'⟩ := ih
    rw [← append_assoc, rdropWhile_concat]
    split
    · exact ⟨b', hpre.trans (prefix_append _ _), hb'⟩
    · exact ⟨b ++ [x], prefix_refl _, by rw [append_assoc]⟩

theorem isOctalDigit_toAscii {d : UInt8} (h : 0x30 ≤ d.toNat ∧ d.toNat ≤ 0x37) :
    isOctalDigit (d.toNat % 128).toUInt16 = true := by
  have h0 : (cu '0').toNat = 48 := rfl
  have h7 : (cu '7').toNat = 55 := rfl
  rw [isOctalDigit, and_eq_true, decide_eq_true_iff, decide_eq_true_iff,
    UInt16.le_iff_toNat_le, UInt16.le_iff_toNat_le, toNat_toAscii]
  omega

theorem isSpace_of_isOctalDigit {c : CodeUnit} (h : isOctalDigit c = true) : isSpace c = false := by
  have h0 : (cu '0').toNat = 48 := rfl
  have h7 : (cu '7').toNat = 55 := rfl
  rw [isOctalDigit, and_eq_true, decide_eq_true_iff, decide_eq_true_iff,
    UInt16.le_iff_toNat_le, UInt16.le_iff_toNat_le] at h
  rw [← not_eq_true]
  intro hs
  simp only [isSpace, or_eq_true, and_eq_true, decide_eq_true_eq, beq_iff_eq,
    UInt16.le_iff_toNat_le, ← UInt16.toNat_inj] at hs
  simp only [UInt16.reduceToNat] at hs
  omega

theorem parseOctal_digits {digits rest : JsString} (hne : digits ≠ [])
    (hd : ∀ c ∈ digits, isOctalDigit c = true)
    (hr : ∀ c, rest.head? = some c → isOctalDigit c = false) :
    parseOctal (digits ++ rest) =
      some ((digits.foldl (fun n c => 8 * n + (c.toNat - 48)) 0 : Nat) : Int) := by
  obtain ⟨c, cs, rfl⟩ := exists_cons_of_ne_nil hne
  have hc := hd c (mem_cons_self ..)
  have hspace := isSpace_of_isOctalDigit hc
  have htrim : trimStart (c :: cs ++ rest) = c :: (cs ++ rest) :=
    dropWhile_cons_of_neg (by simp [hspace])
  have hminus : c ≠ cu '-' := by
    rintro rfl
    exact absurd hc (by decide)
  have hplus : c ≠ cu '+' := by
    rintro rfl
    exact absurd hc (by decide)
  have htake : (c :: (cs ++ rest)).takeWhile isOctalDigit = c :: cs := by
    have hstop : rest.takeWhile isOctalDigit = [] := by
      cases rest with
      | nil => rfl
      | cons x xs => exact takeWhile_cons_of_neg (by simp [hr x rfl])
    rw [← cons_append, takeWhile_append_of_pos hd, hstop, append_nil]
  rw [parseOctal, htrim]
  simp only [hminus, hplus, if_false, htake]
  rfl

theorem foldl_toAscii (digits : Buffer) (h : ∀ d ∈ digits, 0x30 ≤ d.toNat ∧ d.toNat ≤ 0x37)
    (n : Nat) :
    (toAscii digits).foldl (fun n c => 8 * n + (c.toNat - 48)) n =
      digits.foldl (fun n d => 8 * n + (d.toNat - 0x30)) n := by
  induction digits generalizing n with
  | nil => rfl
  | cons d ds ih =>
    have hd := h d (mem_cons_self ..)
    have hnat : (d.toNat % 128).toUInt16.toNat = d.toNat := by
      rw [toNat_toAscii]
      omega
    rw [toAscii, map_cons, foldl_cons, hnat, foldl_cons]
    exact ih (fun x hx => h x (mem_cons_of_mem _ hx)) _

/-- **An octal size is read as it is.** -/
theorem parseOctal_octal {field : Buffer} {n : Nat} (h : Octal field n) :
    parseOctal (trim (toAscii field)) = some (n : Int) := by
  obtain ⟨k, digits, stop, rfl, hne, hd, hs, rfl⟩ := h
  have hdigits : ∀ c ∈ toAscii digits, isOctalDigit c = true := by
    intro c hc
    obtain ⟨d, hmem, rfl⟩ := mem_map.mp hc
    exact isOctalDigit_toAscii (hd d hmem)
  have hne' : toAscii digits ≠ [] := fun he => hne (map_eq_nil_iff.mp he)
  have hstart : trimStart (toAscii (replicate k 0x20 ++ digits ++ stop)) =
      toAscii digits ++ toAscii stop := by
    rw [toAscii_append, toAscii_append, append_assoc, trimStart, dropWhile_append_of_pos]
    · obtain ⟨c, cs, hcs⟩ := exists_cons_of_ne_nil hne'
      rw [hcs, cons_append]
      have hc := isSpace_of_isOctalDigit (hdigits c (by simp [hcs]))
      exact dropWhile_cons_of_neg (by simp [hc])
    · intro c hc
      obtain ⟨d, hmem, rfl⟩ := mem_map.mp hc
      obtain rfl := eq_of_mem_replicate hmem
      rfl
  obtain ⟨stop', hpre, htrim⟩ := rdropWhile_append hne'
    (fun c hc => isSpace_of_isOctalDigit (hdigits c hc)) (toAscii stop)
  have hstop : ∀ c, stop'.head? = some c → isOctalDigit c = false := by
    intro c hc
    obtain ⟨d, hmem, rfl⟩ := mem_map.mp (hpre.subset (List.mem_of_head? hc))
    rcases hs d hmem with rfl | rfl
    · rfl
    · rfl
  rw [trim, hstart, trimEnd, htrim, parseOctal_digits hne' hdigits hstop, foldl_toAscii digits hd]

/-- **A binary size is not.** -/
theorem parseOctal_binary {field : Buffer} {n : Nat} (h : Binary field n) :
    parseOctal (trim (toAscii field)) = none := by
  obtain ⟨bytes, rfl, -⟩ := h
  have hhead : (trim (toAscii (0x80 :: bytes))).head? = some 0 :=
    head?_trim_cons (show isSpace 0 = false from rfl)
  obtain ⟨rest, hrest⟩ := List.head?_eq_some_iff.mp hhead
  rw [hrest, parseOctal]
  rfl

/-! ## Where the file comes out -/

theorem Archive.size_field (a : Archive) : subarray a.bytes 124 136 = a.first.size := by
  rw [Archive.bytes, Entry.bytes, append_assoc, append_assoc, append_assoc,
    subarray_append (by rw [a.first.header_length]; decide), Entry.size]

theorem Archive.behind_header (a : Archive) :
    (a.bytes.drop 512).take a.first.data.length = a.first.data := by
  rw [Archive.bytes, Entry.bytes, append_assoc, append_assoc, append_assoc,
    drop_left' a.first.header_length, take_left]

/-- **What is handed on is the data of the first entry**, or nothing when its size is in binary. -/
theorem feed_archive (a : Archive) {chunks : List Buffer} (h : chunks.flatten = a.bytes) :
    (Octal a.first.size a.first.data.length → feed initial chunks = a.first.data) ∧
      (Binary a.first.size a.first.data.length → feed initial chunks = []) := by
  constructor
  · intro hoctal
    have hsize : readSize chunks.flatten = a.first.data.length := by
      rw [readSize, h, a.size_field, parseOctal_octal hoctal]
      rfl
    rw [feed_eq _ (by omega), hsize, h, Int.toNat_natCast, a.behind_header]
  · intro hbinary
    have hsize : readSize chunks.flatten = 0 := by
      rw [readSize, h, a.size_field, parseOctal_binary hbinary]
      rfl
    rw [feed_eq _ (by omega), hsize]
    rfl

/-- **Exactly the file comes out, however the stream is cut, if and only if** the first entry is a
file, or happens to hold what the file holds, and says its size in octal; or the size is in binary
and the file empty. -/
theorem feed_file_iff (a : Archive) (file : Entry) (hfile : a.file = some file)
    (chunks : List Buffer)
    (h : chunks.flatten = a.bytes) :
    feed initial chunks = file.data ↔
      (a.first.regular = true ∨ a.first.data = file.data) ∧ Octal a.first.size a.first.data.length ∨
        file.data = [] ∧ Binary a.first.size a.first.data.length := by
  have hfirst : a.first.regular = true → a.first.data = file.data := by
    intro hreg
    rw [Archive.file, List.find?_cons_of_pos hreg] at hfile
    rw [Option.some.inj hfile]
  have hor : a.first.regular = true ∨ a.first.data = file.data ↔ a.first.data = file.data :=
    ⟨fun ho => ho.elim hfirst id, .inr⟩
  have hexcl : Octal a.first.size a.first.data.length →
      ¬ Binary a.first.size a.first.data.length := by
    intro ho hb
    have := (parseOctal_octal ho).symm.trans (parseOctal_binary hb)
    cases this
  obtain ⟨hoctal, hbinary⟩ := feed_archive a h
  rw [hor]
  rcases a.stated with ho | hb
  · rw [hoctal ho]
    exact ⟨fun hd => .inl ⟨hd, ho⟩, fun hc => hc.elim And.left fun hr => absurd hr.2 (hexcl ho)⟩
  · rw [hbinary hb]
    exact ⟨fun hd => .inr ⟨hd.symm, hb⟩,
      fun hc => hc.elim (fun hl => absurd hb (hexcl hl.2)) fun hr => hr.1.symm⟩

/-! ## A file behind a PAX header -/

/-- Octal digits of a number, most significant first. -/
def octalDigits : Nat → Nat → Buffer
  | 0, _ => []
  | width + 1, n => octalDigits width (n / 8) ++ [UInt8.ofNat (0x30 + n % 8)]

/-- The fields in front of the size. -/
def nameFields (name : UInt8) : Buffer :=
  name :: List.replicate 99 0 ++ octalDigits 7 0o644 ++ [0] ++ octalDigits 7 0 ++ [0] ++
    octalDigits 7 0 ++ [0]

/-- The fields behind the checksum. -/
def kindFields (typeflag : UInt8) : Buffer :=
  typeflag :: List.replicate 100 0 ++ [0x75, 0x73, 0x74, 0x61, 0x72, 0, 0x30, 0x30] ++
    List.replicate 247 0

/-- A ustar header; its checksum is the sum of its bytes with spaces in place of the checksum. -/
def ustarHeader (name : UInt8) (size : Nat) (typeflag : UInt8) : Buffer :=
  let time := octalDigits 11 0 ++ [0]
  let sum := ((nameFields name ++ (octalDigits 11 size ++ [0]) ++ time ++ List.replicate 8 0x20 ++
    kindFields typeflag).map UInt8.toNat).sum
  nameFields name ++ (octalDigits 11 size ++ [0]) ++ (time ++ (octalDigits 6 sum ++ [0, 0x20])) ++
    kindFields typeflag

theorem length_octalDigits (width n : Nat) : (octalDigits width n).length = width := by
  induction width generalizing n with
  | zero => rfl
  | succ width ih => rw [octalDigits, length_append, ih, length_singleton]

theorem octal_octalDigits {width n : Nat} (hpos : 0 < width) (h : n < 8 ^ width) :
    Octal (octalDigits width n ++ [0]) n := by
  have hbyte : ∀ m, (UInt8.ofNat (0x30 + m % 8)).toNat = 0x30 + m % 8 := fun m =>
    UInt8.toNat_ofNat_of_lt' (by show 0x30 + m % 8 < 256; omega)
  refine ⟨0, octalDigits width n, [0], by simp, ?_, ?_, by simp, ?_⟩
  · intro hnil
    have hlen := length_octalDigits width n
    rw [hnil] at hlen
    exact absurd hlen hpos.ne
  · clear h hpos
    induction width generalizing n with
    | zero => simp [octalDigits]
    | succ width ih =>
      intro d hd
      rcases mem_append.mp hd with hd | hd
      · exact ih d hd
      · rw [mem_singleton.mp hd, hbyte]
        omega
  · clear hpos
    induction width generalizing n with
    | zero =>
      have hn : n = 0 := by simpa using h
      rw [hn]
      rfl
    | succ width ih =>
      have hdiv : n / 8 < 8 ^ width := by
        rw [Nat.pow_succ] at h
        omega
      rw [octalDigits, foldl_append, ih hdiv, foldl_cons, hbyte, foldl_nil]
      omega

theorem length_nameFields (name : UInt8) : (nameFields name).length = 124 := by
  simp only [nameFields, length_append, length_cons, length_replicate,
    length_octalDigits, length_nil]

theorem length_kindFields (typeflag : UInt8) : (kindFields typeflag).length = 356 := by
  simp only [kindFields, length_append, length_cons, length_replicate, length_nil]

theorem length_ustarHeader (name : UInt8) (size : Nat) (typeflag : UInt8) :
    (ustarHeader name size typeflag).length = 512 := by
  simp only [ustarHeader, length_append, length_nameFields, length_kindFields,
    length_octalDigits, length_cons, length_nil]

theorem size_ustarHeader (name : UInt8) (size : Nat) (typeflag : UInt8) :
    subarray (ustarHeader name size typeflag) 124 136 = octalDigits 11 size ++ [0] := by
  have hfront : (nameFields name ++ (octalDigits 11 size ++ [0])).length = 136 := by
    simp only [length_append, length_nameFields, length_octalDigits, length_cons, length_nil]
  rw [ustarHeader]
  simp only [append_assoc (nameFields name ++ (octalDigits 11 size ++ [0]))]
  rw [subarray, take_left' hfront, drop_left' (length_nameFields name)]

theorem typeflag_ustarHeader (name : UInt8) (size : Nat) (typeflag : UInt8) :
    (ustarHeader name size typeflag).getD 156 0 = typeflag := by
  rw [ustarHeader, getD_eq_getElem?_getD, List.getElem?_append_right]
  · simp only [length_append, length_nameFields, length_octalDigits, length_cons, length_nil]
    rfl
  · simp only [length_append, length_nameFields, length_octalDigits, length_cons, length_nil]
    decide

/-- `x` in front of `n`: an extended header that says the name of the file behind it. -/
def paxEntry : Entry where
  header := ustarHeader 0x78 10 0x78
  -- `10 path=n` and a newline
  data := [0x31, 0x30, 0x20, 0x70, 0x61, 0x74, 0x68, 0x3D, 0x6E, 0x0A]
  header_length := length_ustarHeader _ _ _

def hiEntry : Entry where
  header := ustarHeader 0x6E 2 0x30
  data := [0x68, 0x69]
  header_length := length_ustarHeader _ _ _

theorem octal_hi : Octal hiEntry.size hiEntry.data.length := by
  rw [Entry.size, hiEntry, size_ustarHeader]
  exact octal_octalDigits (by decide) (by decide)

theorem octal_pax : Octal paxEntry.size paxEntry.data.length := by
  rw [Entry.size, paxEntry, size_ustarHeader]
  exact octal_octalDigits (by decide) (by decide)

theorem regular_hi : hiEntry.regular = true := by
  rw [Entry.regular, hiEntry, typeflag_ustarHeader]
  decide

theorem regular_pax : paxEntry.regular = false := by
  rw [Entry.regular, paxEntry, typeflag_ustarHeader]
  decide

def plainArchive : Archive := ⟨hiEntry, [], List.replicate 1024 0, .inl octal_hi⟩

def paxArchive : Archive := ⟨paxEntry, [hiEntry], List.replicate 1024 0, .inl octal_pax⟩

/-- An archive of the file alone, cut inside the header and inside the data. -/
theorem feed_plain :
    feed initial [plainArchive.bytes.take 100, (plainArchive.bytes.drop 100).take 413,
      (plainArchive.bytes.drop 100).drop 413] = [0x68, 0x69] := by
  refine (feed_file_iff plainArchive hiEntry (List.find?_cons_of_pos regular_hi) _ ?_).mpr
    (.inl ⟨.inl regular_hi, octal_hi⟩)
  rw [List.flatten_cons, List.flatten_cons, List.flatten_cons, List.flatten_nil, List.append_nil,
    List.take_append_drop, List.take_append_drop]

/-- Behind a PAX header the file does not come out: what does is the data of that header. -/
theorem feed_pax :
    paxArchive.file = some hiEntry ∧ feed initial [paxArchive.bytes] = paxEntry.data ∧
      feed initial [paxArchive.bytes] ≠ hiEntry.data := by
  have hfeed := (@feed_archive paxArchive [paxArchive.bytes] (by simp)).1 octal_pax
  have hfile : paxArchive.file = some hiEntry := by
    have hpax : ¬ paxEntry.regular = true := by rw [regular_pax]; decide
    exact (List.find?_cons_of_neg hpax).trans (List.find?_cons_of_pos regular_hi)
  refine ⟨hfile, hfeed, ?_⟩
  rw [hfeed]
  decide

end Aoox.SingleFileUntar
