import Aoox.Replacing
import Mathlib.Data.List.DropRight

/-! # JavaScript strings

A JavaScript string is a sequence of UTF-16 code units, and every length,
position and comparison in the source counts those: a character outside the
Basic Multilingual Plane is two units, and a lone surrogate is a legal string.
Strings are therefore lists of 16-bit code units here.  The methods the source
calls are modelled under their own names; positions are natural numbers and the
answer `-1` of a search is `none`.
-/
open List Option
namespace Aoox

abbrev CodeUnit := UInt16

abbrev JsString := List CodeUnit

instance : LawfulBEq JsString := inferInstance

/-- The code unit of a character of the Basic Multilingual Plane. -/
def cu (c : Char) : CodeUnit := c.toNat.toUInt16

/-- The code units of a character: one, or a surrogate pair. -/
def utf16 (c : Char) : JsString :=
  if c.toNat < 0x10000 then [cu c]
  else [(0xD800 + (c.toNat - 0x10000) / 0x400).toUInt16,
    (0xDC00 + (c.toNat - 0x10000) % 0x400).toUInt16]

/-- The JavaScript string of a Lean string literal. -/
def js (s : String) : JsString := s.toList.flatMap utf16

/-- A literal is read off its characters, without its bytes. -/
theorem js_ofList (l : List Char) : js (String.ofList l) = l.flatMap utf16 := by
  rw [js, String.toList_ofList]

namespace JsString

/-! ## Searching -/

/-- `text.indexOf(needle, start)`: the first position from `start` on at which
`needle` occurs. -/
def indexOf (needle : JsString) : JsString → Nat → Option Nat
  | [], _ => if needle = [] then some 0 else none
  | c :: cs, 0 => if needle <+: c :: cs then some 0 else (indexOf needle cs 0).map (· + 1)
  | _ :: cs, k + 1 => (indexOf needle cs k).map (· + 1)

/-- `text.includes(needle)`. -/
def includes (text needle : JsString) : Bool := (indexOf needle text 0).isSome

/-- `text.startsWith(p)`. -/
def startsWith (text p : JsString) : Bool := p <+: text

/-- `text.slice(from)`. -/
def sliceFrom (text : JsString) (i : Nat) : JsString := text.drop i

/-- `text.slice(0, to)`. -/
def sliceTo (text : JsString) (i : Nat) : JsString := text.take i

variable {text : JsString}

variable {needle : JsString} {k : Nat}

theorem indexOf_some {i : Nat} (hn : needle ≠ [])
    (h : indexOf needle text k = some i) : k ≤ i ∧ needle <+: text.drop i ∧ i < text.length := by
  induction text generalizing k i with
  | nil => simp [indexOf, hn] at h
  | cons c cs ih =>
    cases k with
    | zero =>
      rw [indexOf] at h
      split at h
      · obtain rfl := some.inj h
        exact ⟨le_rfl, by simpa using ‹needle <+: c :: cs›, by simp⟩
      · obtain ⟨j, hj, rfl⟩ := map_eq_some_iff.mp h
        obtain ⟨-, hp, hlt⟩ := ih hj
        exact ⟨Nat.zero_le _, by simpa using hp, by simpa using hlt⟩
    | succ k =>
      rw [indexOf] at h
      obtain ⟨j, hj, rfl⟩ := map_eq_some_iff.mp h
      obtain ⟨hk, hp, hlt⟩ := ih hj
      exact ⟨by omega, by simpa using hp, by simpa using hlt⟩

/-- An occurrence at or behind the start is found, there or earlier. -/
theorem indexOf_le {j : Nat} (hkj : k ≤ j) (hj : j < text.length)
    (h : needle <+: text.drop j) : ∃ i, indexOf needle text k = some i ∧ i ≤ j := by
  induction text generalizing k j with
  | nil => simp at hj
  | cons c cs ih =>
    cases k with
    | zero =>
      rw [indexOf]
      split
      · exact ⟨0, rfl, Nat.zero_le _⟩
      · cases j with
        | zero => exact absurd (by simpa using h) ‹¬ needle <+: c :: cs›
        | succ j =>
          obtain ⟨i, hi, hij⟩ := ih (Nat.zero_le j) (by simpa using hj) (by simpa using h)
          exact ⟨i + 1, by simp [hi], by omega⟩
    | succ k =>
      cases j with
      | zero => omega
      | succ j =>
        obtain ⟨i, hi, hij⟩ := ih (Nat.le_of_succ_le_succ hkj) (by simpa using hj)
          (by simpa using h)
        exact ⟨i + 1, by simp [indexOf, hi], by omega⟩

theorem includes_iff (hn : needle ≠ []) : includes text needle = true ↔ needle <:+: text := by
  rw [includes, isSome_iff_exists]
  constructor
  · rintro ⟨i, hi⟩
    exact (indexOf_some hn hi).2.1.isInfix.trans (drop_suffix i text).isInfix
  · rintro ⟨p, s, rfl⟩
    have hpos : 0 < needle.length := length_pos_iff.mpr hn
    have hocc : needle <+: (p ++ needle ++ s).drop p.length := by simp
    obtain ⟨i, hi, -⟩ := indexOf_le (Nat.zero_le p.length) (by simp; omega) hocc
    exact ⟨i, hi⟩

/-! ## Splitting and joining -/

def consFirst (c : CodeUnit) : List JsString → List JsString
  | [] => [[c]]
  | p :: ps => (c :: p) :: ps

/-- The scan of `split`; the first argument counts the units of the last
separator that are still to be passed over. -/
def splitGo (sep : JsString) : Nat → JsString → List JsString
  | _, [] => [[]]
  | k + 1, _ :: cs => splitGo sep k cs
  | 0, c :: cs =>
    if sep <+: c :: cs then [] :: splitGo sep (sep.length - 1) cs
    else consFirst c (splitGo sep 0 cs)

/-- `text.split(sep)` for a non-empty separator. -/
def split (text sep : JsString) : List JsString := splitGo sep 0 text

/-- `pieces.join(sep)`. -/
def join (pieces : List JsString) (sep : JsString) : JsString := sep.intercalate pieces

theorem splitGo_ne_nil (sep : JsString) (k : Nat) (text : JsString) : splitGo sep k text ≠ [] := by
  induction text generalizing k with
  | nil => cases k <;> simp [splitGo]
  | cons c cs ih =>
    cases k with
    | succ k => exact ih k
    | zero =>
      rw [splitGo]
      split
      · simp
      · cases splitGo sep 0 cs <;> simp [consFirst]

theorem join_consFirst (sep : JsString) (c : CodeUnit) {ps : List JsString} (h : ps ≠ []) :
    join (consFirst c ps) sep = c :: join ps sep := by
  obtain ⟨p, ps, rfl⟩ := exists_cons_of_ne_nil h
  exact intercalate_cons_cons_left

open Replacing in
theorem join_splitGo (sep r : JsString) (k : Nat) (text : JsString) :
    join (splitGo sep k text) r = replaceGo (sublist sep) r k text := by
  induction text generalizing k with
  | nil => cases k <;> simp [splitGo, replaceGo, join]
  | cons c cs ih =>
    cases k with
    | succ k => exact ih k
    | zero =>
      rw [splitGo, replaceGo]
      by_cases h : sep <+: c :: cs
      · rw [if_pos h, sublist, if_pos h]
        simp only [join, intercalate_cons_of_ne_nil (splitGo_ne_nil sep _ cs)]
        rw [← ih]
        simp [join]
      · rw [if_neg h, sublist, if_neg h, join_consFirst r c (splitGo_ne_nil sep 0 cs), ih]

/-- Splitting at a separator and joining with another string replaces every
occurrence of the separator. -/
theorem join_split (text sep r : JsString) :
    join (split text sep) r = Replacing.replaceSublist sep r text :=
  join_splitGo sep r 0 text

/-! A separator of one unit -/

theorem split_unit_cons (c x : CodeUnit) (text : JsString) :
    split (x :: text) [c] = if x = c then [] :: split text [c] else consFirst x (split text [c]) := by
  unfold split
  rw [splitGo]
  by_cases hx : x = c
  · simp [hx]
  · have hne : ¬ [c] <+: x :: text := by
      simpa using Ne.symm hx
    rw [if_neg hne, if_neg hx]

theorem split_append_unit (c : CodeUnit) (a b : JsString) :
    split (a ++ c :: b) [c] = split a [c] ++ split b [c] := by
  induction a with
  | nil => simp [split, splitGo]
  | cons x a ih =>
    rw [cons_append, split_unit_cons, split_unit_cons, ih]
    by_cases hx : x = c
    · simp [hx]
    · rw [if_neg hx, if_neg hx]
      obtain ⟨p, ps, hps⟩ := exists_cons_of_ne_nil (splitGo_ne_nil [c] 0 a)
      simp [split, hps, consFirst]

theorem length_split_unit (c : CodeUnit) (text : JsString) :
    (split text [c]).length = text.count c + 1 := by
  induction text with
  | nil => simp [split, splitGo]
  | cons x text ih =>
    rw [split_unit_cons]
    by_cases hx : x = c
    · simp [hx, ih]
    · obtain ⟨p, ps, hps⟩ := exists_cons_of_ne_nil (splitGo_ne_nil [c] 0 text)
      have hlen : (consFirst x (split text [c])).length = (split text [c]).length := by
        simp [split, hps, consFirst]
      rw [if_neg hx, hlen, ih, count_cons_of_ne hx]

theorem head_split_unit (c : CodeUnit) (t : JsString) :
    (split t [c]).head? = some (t.takeWhile (· ≠ c)) := by
  induction t with
  | nil => rfl
  | cons x t ih =>
    rw [split_unit_cons]
    by_cases hx : x = c
    · simp [hx]
    · obtain ⟨p, ps, hps⟩ := exists_cons_of_ne_nil (splitGo_ne_nil [c] 0 t)
      have hsplit : split t [c] = p :: ps := hps
      rw [hsplit, List.head?_cons, some_inj] at ih
      rw [if_neg hx, hsplit, consFirst, List.head?_cons, ih]
      simp [hx]

variable {c : CodeUnit}

theorem split_of_not_mem (h : c ∉ text) : split text [c] = [text] := by
  induction text with
  | nil => rfl
  | cons x text ih =>
    rw [mem_cons, not_or] at h
    rw [split_unit_cons, if_neg (Ne.symm h.1), ih h.2]
    rfl

theorem join_split_unit (c : CodeUnit) (text : JsString) : join (split text [c]) [c] = text := by
  induction text with
  | nil => rfl
  | cons x text ih =>
    obtain ⟨p, ps, hps⟩ := exists_cons_of_ne_nil (splitGo_ne_nil [c] 0 text)
    rw [split_unit_cons]
    rw [split, hps] at ih ⊢
    by_cases hx : x = c
    · rw [if_pos hx, ← ih, hx]
      simp [join, intercalate_cons_cons]
    · rw [if_neg hx, ← ih]
      cases ps <;> simp [consFirst, join, intercalate_cons_cons]

theorem split_join_unit {pieces : List JsString} (hne : pieces ≠ [])
    (h : ∀ p ∈ pieces, c ∉ p) : split (join pieces [c]) [c] = pieces := by
  induction pieces with
  | nil => exact absurd rfl hne
  | cons p ps ih =>
    have hp := h p mem_cons_self
    by_cases hps : ps = []
    · subst hps
      simp [join, split_of_not_mem hp]
    · have hjoin : join (p :: ps) [c] = p ++ c :: join ps [c] := by
        simp [join, intercalate_cons_of_ne_nil hps]
      rw [hjoin, split_append_unit, split_of_not_mem hp,
        ih hps fun x hx => h x (mem_cons_of_mem _ hx)]
      rfl

theorem not_mem_of_mem_splitGo {piece : JsString} (h : piece ∈ splitGo [c] k text) : c ∉ piece := by
  induction text generalizing k piece with
  | nil => cases k <;> simp_all [splitGo]
  | cons d ds ih =>
    cases k with
    | succ k => exact ih h
    | zero =>
      rw [splitGo] at h
      split at h
      · rcases mem_cons.mp h with rfl | h
        · simp
        · exact ih h
      · rename_i hd
        have hcd : c ≠ d := by simpa using hd
        cases hps : splitGo [c] 0 ds with
        | nil => exact absurd hps (splitGo_ne_nil _ _ _)
        | cons q qs =>
          rw [hps, consFirst] at h
          have hq : c ∉ q := ih (hps ▸ mem_cons_self)
          rcases mem_cons.mp h with rfl | h
          · simp [hcd, hq]
          · exact ih (hps ▸ mem_cons_of_mem _ h)

/-- Splitting adds no units. -/
theorem mem_of_mem_splitGo {sep piece : JsString} (hpiece : piece ∈ splitGo sep k text)
    (hc : c ∈ piece) : c ∈ text := by
  induction text generalizing k piece with
  | nil =>
    have hnil : splitGo sep k [] = [[]] := by cases k <;> rfl
    rw [hnil, mem_singleton] at hpiece
    exact hpiece ▸ hc
  | cons x text ih =>
    cases k with
    | succ k => exact mem_cons_of_mem _ (ih hpiece hc)
    | zero =>
      rw [splitGo] at hpiece
      by_cases hsep : sep <+: x :: text
      · rw [if_pos hsep] at hpiece
        rcases mem_cons.mp hpiece with rfl | hpiece
        · cases hc
        · exact mem_cons_of_mem _ (ih hpiece hc)
      · rw [if_neg hsep] at hpiece
        obtain ⟨p, ps, hps⟩ := exists_cons_of_ne_nil (splitGo_ne_nil sep 0 text)
        have hp : p ∈ splitGo sep 0 text := by
          rw [hps]
          exact mem_cons_self
        rw [hps, consFirst] at hpiece
        rcases mem_cons.mp hpiece with rfl | hpiece
        · rcases mem_cons.mp hc with rfl | hc
          · exact mem_cons_self
          · exact mem_cons_of_mem _ (ih hp hc)
        · have hq : piece ∈ splitGo sep 0 text := by
            rw [hps]
            exact mem_cons_of_mem _ hpiece
          exact mem_cons_of_mem _ (ih hq hc)

/-- Splitting goes on in the last piece. -/
theorem split_append (c : CodeUnit) (a b : JsString) :
    split (a ++ b) [c] = (split a [c]).dropLast ++ split ((split a [c]).getLastD [] ++ b) [c] := by
  induction a with
  | nil => rfl
  | cons x a ih =>
    obtain ⟨p, ps, hps⟩ := exists_cons_of_ne_nil (splitGo_ne_nil [c] 0 a)
    have hsplit : split a [c] = p :: ps := hps
    rw [cons_append, split_unit_cons, split_unit_cons, ih, hsplit]
    by_cases hx : x = c
    · rw [if_pos hx, if_pos hx]
      rfl
    · rw [if_neg hx, if_neg hx]
      cases ps with
      | nil =>
        show consFirst x ([] ++ split (p ++ b) [c]) = [] ++ split ((x :: p) ++ b) [c]
        rw [nil_append, nil_append, cons_append, split_unit_cons, if_neg hx]
      | cons q ps => rfl

/-- Every other unit of a text is in one of the pieces. -/
theorem exists_mem_split_unit {x : CodeUnit} (hx : x ∈ text) (hne : x ≠ c) :
    ∃ piece ∈ split text [c], x ∈ piece := by
  induction text with
  | nil => cases hx
  | cons y text ih =>
    rw [split_unit_cons]
    by_cases hy : y = c
    · rw [if_pos hy]
      rcases mem_cons.mp hx with rfl | hx
      · exact absurd hy hne
      · obtain ⟨piece, hpiece, hmem⟩ := ih hx
        exact ⟨piece, mem_cons_of_mem _ hpiece, hmem⟩
    · obtain ⟨p, ps, hps⟩ := exists_cons_of_ne_nil (splitGo_ne_nil [c] 0 text)
      rw [if_neg hy]
      simp only [split, hps, consFirst] at ih ⊢
      rcases mem_cons.mp hx with rfl | hx
      · exact ⟨_, mem_cons_self, mem_cons_self⟩
      · obtain ⟨piece, hpiece, hmem⟩ := ih hx
        rcases mem_cons.mp hpiece with rfl | hpiece
        · exact ⟨_, mem_cons_self, mem_cons_of_mem _ hmem⟩
        · exact ⟨piece, mem_cons_of_mem _ hpiece, hmem⟩

variable {x y rest rest' : JsString}

/-- A unit that does not occur in either text ends both. -/
theorem append_cons_inj (hx : c ∉ x) (hy : c ∉ y)
    (h : x ++ c :: rest = y ++ c :: rest') : x = y ∧ rest = rest' := by
  induction x generalizing y with
  | nil =>
    cases y with
    | nil => exact ⟨rfl, (List.cons.inj h).2⟩
    | cons b y => exact absurd (List.cons.inj h).1 fun heq => hy (heq ▸ mem_cons_self)
  | cons a x ih =>
    cases y with
    | nil => exact absurd (List.cons.inj h).1.symm fun heq => hx (heq ▸ mem_cons_self)
    | cons b y =>
      obtain ⟨hab, hrest⟩ := List.cons.inj h
      obtain ⟨rfl, hr⟩ := ih (fun hm => hx (mem_cons_of_mem _ hm))
        (fun hm => hy (mem_cons_of_mem _ hm)) hrest
      exact ⟨by rw [hab], hr⟩

/-- The same from the other end. -/
theorem append_cons_inj_right (hr : c ∉ rest) (hr' : c ∉ rest')
    (h : x ++ c :: rest = y ++ c :: rest') : x = y ∧ rest = rest' := by
  have hrev : rest.reverse ++ c :: x.reverse = rest'.reverse ++ c :: y.reverse := by
    have := congrArg reverse h
    simpa using this
  obtain ⟨h1, h2⟩ := append_cons_inj (by simpa using hr) (by simpa using hr') hrev
  exact ⟨reverse_injective h2, reverse_injective h1⟩

/-! ## White space and lines -/

/-- White space and line terminators: what `trim` removes and `\s` matches. -/
def isSpace (c : CodeUnit) : Bool :=
  (9 ≤ c && c ≤ 13) || c == 32 || c == 0xA0 || c == 0x1680 || (0x2000 ≤ c && c ≤ 0x200A) ||
    c == 0x2028 || c == 0x2029 || c == 0x202F || c == 0x205F || c == 0x3000 || c == 0xFEFF

def isLetter (c : CodeUnit) : Bool := (cu 'A' ≤ c && c ≤ cu 'Z') || (cu 'a' ≤ c && c ≤ cu 'z')

def isDigit (c : CodeUnit) : Bool := cu '0' ≤ c && c ≤ cu '9'

/-- `text.trimStart()`. -/
def trimStart (text : JsString) : JsString := text.dropWhile isSpace

/-- `text.trimEnd()`. -/
def trimEnd (text : JsString) : JsString := text.rdropWhile isSpace

/-- `text.trim()`. -/
def trim (text : JsString) : JsString := trimEnd (trimStart text)

theorem head?_trim (text : JsString) (c : CodeUnit) (h : (trim text).head? = some c) :
    isSpace c = false := by
  have hne : trim text ≠ [] := by
    intro he
    rw [he] at h
    cases h
  have hpre : trim text <+: trimStart text := rdropWhile_prefix _ _
  have hhead : (trimStart text).head? = some c := by
    obtain ⟨rest, hrest⟩ := hpre
    rw [← hrest, List.head?_append_of_ne_nil _ hne, h]
  have hnot := List.head?_dropWhile_not isSpace text
  rw [show text.dropWhile isSpace = trimStart text from rfl, hhead] at hnot
  simpa using hnot

theorem getLast?_trim (text : JsString) (c : CodeUnit) (h : (trim text).getLast? = some c) :
    isSpace c = false := by
  have hne : trim text ≠ [] := by
    intro he
    rw [he] at h
    cases h
  have hnot := rdropWhile_last_not isSpace (trimStart text) hne
  rw [getLast?_eq_some_getLast hne] at h
  obtain rfl := some.inj h
  simpa [trim, trimEnd] using hnot

theorem trim_eq_self (hhead : ∀ c, text.head? = some c → isSpace c = false)
    (hlast : ∀ c, text.getLast? = some c → isSpace c = false) : trim text = text := by
  have hstart : trimStart text = text := by
    cases text with
    | nil => rfl
    | cons c cs => exact dropWhile_cons_of_neg (by simp [hhead c rfl])
  rw [trim, hstart, trimEnd, rdropWhile_eq_self_iff]
  intro hne
  simpa using hlast _ (getLast?_eq_some_getLast hne)

theorem trim_trim (text : JsString) : trim (trim text) = trim text :=
  trim_eq_self (head?_trim text) (getLast?_trim text)

theorem isInfix_trim (text : JsString) : trim text <:+: text :=
  (List.rdropWhile_prefix _ _).isInfix.trans (dropWhile_suffix isSpace).isInfix

/-- `text.split(/\r?\n/)`. -/
def splitLines : JsString → List JsString
  | [] => [[]]
  | [c] => if c = cu '\n' then [[], []] else [[c]]
  | c :: d :: cs =>
    if c = cu '\n' then [] :: splitLines (d :: cs)
    else if c = cu '\r' ∧ d = cu '\n' then [] :: splitLines cs
    else consFirst c (splitLines (d :: cs))

/-- `A-Z` to `a-z`.  The source lower-cases only to compare with ASCII words, and
no other code unit lower-cases to a letter of one of them. -/
def toLowerCase (text : JsString) : JsString :=
  text.map fun c => if cu 'A' ≤ c && c ≤ cu 'Z' then c + 32 else c

/-! ## URI encoding -/

/-- `A-Z a-z 0-9 - _ . ! ~ * ' ( )`, the characters `encodeURIComponent` keeps. -/
def isUriUnreserved (c : CodeUnit) : Bool :=
  (cu 'A' ≤ c && c ≤ cu 'Z') || (cu 'a' ≤ c && c ≤ cu 'z') || (cu '0' ≤ c && c ≤ cu '9') ||
    (js "-_.!~*'()").contains c

def isLeadSurrogate (c : CodeUnit) : Bool := 0xD800 ≤ c && c ≤ 0xDBFF

def isTrailSurrogate (c : CodeUnit) : Bool := 0xDC00 ≤ c && c ≤ 0xDFFF

def utf8Bytes (p : Nat) : List Nat :=
  if p < 0x80 then [p]
  else if p < 0x800 then [0xC0 + p / 0x40, 0x80 + p % 0x40]
  else if p < 0x10000 then [0xE0 + p / 0x1000, 0x80 + p / 0x40 % 0x40, 0x80 + p % 0x40]
  else [0xF0 + p / 0x40000, 0x80 + p / 0x1000 % 0x40, 0x80 + p / 0x40 % 0x40, 0x80 + p % 0x40]

/-- An upper-case hexadecimal digit. -/
def hexDigit (n : Nat) : CodeUnit :=
  if n < 10 then cu '0' + n.toUInt16 else cu 'A' + (n - 10).toUInt16

/-- `%XX` for every UTF-8 byte of a code point. -/
def percentEncode (p : Nat) : JsString :=
  (utf8Bytes p).flatMap fun b => [cu '%', hexDigit (b / 16), hexDigit (b % 16)]

/-- `encodeURIComponent(text)`; `none` is the `URIError` of a lone surrogate. -/
def encodeURIComponent : JsString → Option JsString
  | [] => some []
  | [c] =>
    if isUriUnreserved c then some [c]
    else if isLeadSurrogate c || isTrailSurrogate c then none
    else some (percentEncode c.toNat)
  | c :: d :: cs =>
    if isUriUnreserved c then (encodeURIComponent (d :: cs)).map (c :: ·)
    else if isTrailSurrogate c then none
    else if isLeadSurrogate c then
      if isTrailSurrogate d then
        (encodeURIComponent cs).map
          (percentEncode (0x10000 + (c.toNat - 0xD800) * 0x400 + (d.toNat - 0xDC00)) ++ ·)
      else none
    else (encodeURIComponent (d :: cs)).map (percentEncode c.toNat ++ ·)

/-! ## Numbers -/

theorem toNat_cu {c : Char} (h : c.toNat < 0x10000) : (cu c).toNat = c.toNat := by
  rw [cu, Nat.toUInt16, UInt16.toNat_ofNat']
  exact Nat.mod_eq_of_lt h

variable {n : Nat}

theorem toDigits_bounds {c : Char} (h : c ∈ Nat.toDigits 10 n) : 48 ≤ c.toNat ∧ c.toNat ≤ 57 := by
  have hd := Nat.isDigit_of_mem_toDigits (by omega) (by omega) h
  simp only [Char.isDigit, Bool.and_eq_true, decide_eq_true_eq] at hd
  exact hd

/-- The decimal digits of a number, as code units. -/
theorem js_toString (n : Nat) : js (toString n) = (Nat.toDigits 10 n).map cu := by
  have htoList : (toString n).toList = Nat.toDigits 10 n := Nat.toList_repr
  have hdigits : ∀ c ∈ Nat.toDigits 10 n, utf16 c = [cu c] := by
    intro c hc
    rw [utf16, if_pos (by have := toDigits_bounds hc; omega)]
  rw [js, htoList, flatMap_congr hdigits, ← map_eq_flatMap]

theorem isDigit_of_mem_toString (h : c ∈ js (toString n)) : isDigit c = true := by
  rw [js_toString, List.mem_map] at h
  obtain ⟨x, hx, rfl⟩ := h
  have hb := toDigits_bounds hx
  have hx' := @toNat_cu x (by omega)
  simp only [isDigit, Bool.and_eq_true, decide_eq_true_eq, UInt16.le_iff_toNat_le, hx']
  exact hb

/-- A number is read back from its digits. -/
theorem js_toString_inj {n' : Nat} (h : js (toString n) = js (toString n')) : n = n' := by
  have hback : ∀ m : Nat, (js (toString m)).map (fun u => Char.ofNat u.toNat) =
      Nat.toDigits 10 m := by
    intro m
    rw [js_toString, List.map_map]
    have hid : ∀ c ∈ Nat.toDigits 10 m, ((fun u : CodeUnit => Char.ofNat u.toNat) ∘ cu) c = c := by
      intro c hc
      have hlt : c.toNat < 0x10000 := by
        have := toDigits_bounds hc
        omega
      rw [Function.comp, toNat_cu hlt, Char.ofNat_toNat]
    rw [map_congr_left hid, List.map_id']
  have hdigits : Nat.toDigits 10 n = Nat.toDigits 10 n' := by
    rw [← hback n, h, hback]
  rw [← @Nat.ofDigitChars_ten_toDigits n, hdigits, Nat.ofDigitChars_ten_toDigits]

/-! ## Dates -/

/-- A number padded with zeros on the left. -/
def padStart (width n : Nat) : JsString :=
  let digits := js (toString n)
  List.replicate (width - digits.length) (cu '0') ++ digits

/-- Year, month and day of a day counted from 1 January 1970. -/
def civilDate (days : Nat) : Nat × Nat × Nat :=
  let z := days + 719468
  let dayOfEra := z % 146097
  let yearOfEra := (dayOfEra - dayOfEra / 1460 + dayOfEra / 36524 - dayOfEra / 146096) / 365
  let dayOfYear := dayOfEra - (365 * yearOfEra + yearOfEra / 4 - yearOfEra / 100)
  let m := (5 * dayOfYear + 2) / 153
  let month := if m < 10 then m + 3 else m - 9
  let year := yearOfEra + z / 146097 * 400
  (if month ≤ 2 then year + 1 else year, month, dayOfYear - (153 * m + 2) / 5 + 1)

/-- `date.toISOString()` of a `Date` given in milliseconds since 1970. -/
def toISOString (ms : Nat) : JsString :=
  let (year, month, day) := civilDate (ms / 86400000)
  padStart 4 year ++ js "-" ++ padStart 2 month ++ js "-" ++ padStart 2 day ++ js "T" ++
    padStart 2 (ms / 3600000 % 24) ++ js ":" ++ padStart 2 (ms / 60000 % 60) ++ js ":" ++
    padStart 2 (ms / 1000 % 60) ++ js "." ++ padStart 3 (ms % 1000) ++ js "Z"

end JsString
end Aoox
