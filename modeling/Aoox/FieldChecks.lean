import Aoox.ImportedMounts
import Aoox.References

/-! # Checks on the texts of a file

An import file is not trusted: a folder, the location of a secret source, the path and the
codes of a monitor are checked like the fields of a request, and a text of before variable
sets is brought up to date (`rewriteProjectReferences`).  A text is left as it is exactly
when it holds no reference of the old form (`rewriteProjectReferences_eq_self_iff`), and a
folder that passes needs no trimming (`trim_of_isValidRootDirectory`).
-/
open List
namespace Aoox.FieldChecks

open JsString ImportedMounts

/-! ## Folders and secret sources -/

/-- `[A-Za-z0-9._-]` -/
def isFolderUnit (c : CodeUnit) : Bool :=
  isLetter c || isDigit c || c = cu '.' || c = cu '_' || c = cu '-'

def isFolder (segment : JsString) : Bool := segment ≠ [] && segment.all isFolderUnit

/-- `/^\.+$/` -/
def isDots (segment : JsString) : Bool := segment ≠ [] && segment.all fun c => c = cu '.'

def normalizeRootDirectory (value : Option JsString) : Option JsString := given (value.map trim)

/-- `.`, `..` and friends would step out of the root or stay at it, `.git` is deleted after
the clone. -/
def isValidRootDirectory (value : JsString) : Bool :=
  value ≠ [] && value.length ≤ 200 && ((split value (js "/")).all fun s =>
    isFolder s && !isDots s && s ≠ js ".git")

/-- `/^[A-Za-z0-9_-]{1,max}$/` -/
def isSecretName (max : Nat) (value : JsString) : Bool :=
  value ≠ [] && value.length ≤ max && value.all fun c =>
    isLetter c || isDigit c || c = cu '_' || c = cu '-'

def isValidSecretPath (value : JsString) : Bool :=
  value.length ≤ 200 &&
    (value = js "/" ||
      match split value (js "/") with
      | [] :: s :: segments => (s :: segments).all fun x => isFolder x && !isDots x
      | _ => false)

/-! ## Monitors -/

def hexValue (c : CodeUnit) : Option Nat :=
  if isDigit c then some (c.toNat - 48)
  else if cu 'A' ≤ c && c ≤ cu 'F' then some (c.toNat - 55)
  else if cu 'a' ≤ c && c ≤ cu 'f' then some (c.toNat - 87)
  else none

/-- The byte of `%XX` at the start of a text. -/
def percentByte : JsString → Option Nat
  | p :: x :: y :: _ =>
    if p = cu '%' then do
      let hi ← hexValue x
      let lo ← hexValue y
      return 16 * hi + lo
    else none
  | _ => none

/-- The length of the UTF-8 sequence a byte starts, and the bits it gives. -/
def leadByte (b : Nat) : Option (Nat × Nat) :=
  if b < 0x80 then some (1, b)
  else if 0xC0 ≤ b ∧ b < 0xE0 then some (2, b - 0xC0)
  else if 0xE0 ≤ b ∧ b < 0xF0 then some (3, b - 0xE0)
  else if 0xF0 ≤ b ∧ b < 0xF8 then some (4, b - 0xF0)
  else none

/-- Reads the `n` continuation bytes of a sequence. -/
def continuation : Nat → Nat → JsString → Option Nat
  | 0, p, _ => some p
  | n + 1, p, text => do
    let b ← percentByte text
    if 0x80 ≤ b ∧ b < 0xC0 then continuation n (64 * p + (b - 0x80)) (text.drop 3) else none

/-- The least code point a sequence of this length may give. -/
def leastPoint : Nat → Nat
  | 1 => 0
  | 2 => 0x80
  | 3 => 0x800
  | _ => 0x10000

/-- A code point in UTF-16. -/
def pointUnits (p : Nat) : JsString :=
  if p < 0x10000 then [p.toUInt16]
  else [(0xD800 + (p - 0x10000) / 0x400).toUInt16, (0xDC00 + (p - 0x10000) % 0x400).toUInt16]

/-- The code point of the sequence at the start of a text and how many units it takes. -/
def decodePoint (text : JsString) : Option (Nat × Nat) := do
  let b ← percentByte text
  let (n, bits) ← leadByte b
  let p ← continuation (n - 1) bits (text.drop 3)
  if leastPoint n ≤ p ∧ p ≤ 0x10FFFF ∧ ¬ (0xD800 ≤ p ∧ p ≤ 0xDFFF) then return (p, 3 * n) else none

/-- The counter skips the units of a sequence that is already decoded. -/
def decodeGo : Nat → JsString → Option JsString
  | _, [] => some []
  | k + 1, _ :: cs => decodeGo k cs
  | 0, c :: cs =>
    if c = cu '%' then
      match decodePoint (c :: cs) with
      | some (p, n) => (decodeGo (n - 1) cs).map (pointUnits p ++ ·)
      | none => none
    else (decodeGo 0 cs).map (c :: ·)

/-- `none` is a `URIError`. -/
def decodeURIComponent (text : JsString) : Option JsString := decodeGo 0 text

/-- Controls, the space, delete, backslash and `#`. -/
def isRefusedUnit (c : CodeUnit) : Bool := c ≤ cu ' ' || c = 0x7F || c = cu '\\' || c = cu '#'

def isControl (c : CodeUnit) : Bool := c < cu ' ' || c = 0x7F

/-- The error of a path that must not be requested. -/
def validateMonitorPath (path : JsString) : Option JsString :=
  if path = [] then some (js "path must not be empty")
  else if 200 < path.length then some (js "path must be at most 200 characters")
  else if !startsWith path (js "/") then some (js "path must start with \"/\"")
  else if startsWith path (js "//") then some (js "path must not start with \"//\"")
  else if path.any isRefusedUnit then
    some (js "path must not contain spaces, control characters, \"\\\" or \"#\"")
  else
    match decodeURIComponent (((split path (js "?")).head?).getD []) with
    | none => some (js "path has an invalid percent-encoding")
    | some decoded =>
      if (split decoded (js "/")).contains (js "..") || decoded.any fun c => c = cu '\\' then
        some (js "path must not contain \"..\" segments")
      else if decoded.any isControl then some (js "path must not contain control characters")
      else none

/-- Three digits. -/
def code : JsString → Option Nat
  | [a, b, c] =>
    if isDigit a && isDigit b && isDigit c then
      some (100 * (a.toNat - 48) + 10 * (b.toNat - 48) + (c.toNat - 48))
    else none
  | _ => none

/-- `/^(\d{3})(?:-(\d{3}))?$/` -/
def codeRange (part : JsString) : Option (Nat × Nat) :=
  match split part (js "-") with
  | [lo] => (code lo).map fun n => (n, n)
  | [lo, hi] => do
    let a ← code lo
    let b ← code hi
    return (a, b)
  | _ => none

/-- The ranges of `200-399` or `200,204`; `none` when malformed. -/
def parseExpectedCodes (spec : JsString) : Option (List (Nat × Nat)) :=
  if 80 < spec.length then none
  else
    let parts := (split spec (js ",")).map trim
    if 10 < parts.length then none
    else parts.mapM fun part => do
      let r ← codeRange part
      if 100 ≤ r.1 ∧ r.2 ≤ 599 ∧ r.1 ≤ r.2 then return r else none

/-! ## References of before variable sets -/

def hasOldReference (text : JsString) : Bool := text.tails.any fun s => (matchProject s).isSome

/-- A reference of the old form is at least as long as what is skipped for it. -/
theorem length_of_matchProject {text space : JsString} (h : matchProject text = some space) :
    openBraces.length + space.length + (js "project.").length ≤ text.length := by
  simp only [matchProject, Option.bind_eq_bind, Option.bind_eq_some_iff] at h
  obtain ⟨rest, hrest, name, hname, hspace⟩ := h
  obtain rfl := Option.some.inj hspace
  have hsplit : rest = rest.takeWhile isSpace ++ (js "project." ++ name) := by
    rw [← afterLiteral_some hname]
    exact takeWhile_append_dropWhile.symm
  have hlen := congrArg List.length hsplit
  rw [afterLiteral_some hrest]
  simp only [length_append] at hlen ⊢
  omega

/-- Rewriting never makes a text longer. -/
theorem length_rewriteGo (k : Nat) (text : JsString) : (rewriteGo k text).length ≤ text.length - k := by
  have h3 : openBraces.length = 3 := rfl
  have h5 : (js "vars.").length = 5 := rfl
  have h8 : (js "project.").length = 8 := rfl
  induction text generalizing k with
  | nil => exact Nat.zero_le _
  | cons c cs ih =>
    cases k with
    | succ k =>
      have := ih k
      simp only [rewriteGo, length_cons]
      omega
    | zero =>
      cases hold : matchProject (c :: cs) with
      | some space =>
        have hlong := length_of_matchProject hold
        have hrest := ih (openBraces.length + space.length + (js "project.").length - 1)
        simp only [rewriteGo, hold, length_append, length_cons] at hlong ⊢
        omega
      | none =>
        have := ih 0
        simp only [rewriteGo, hold, length_cons]
        omega

theorem rewriteGo_eq_self_iff (text : JsString) :
    rewriteGo 0 text = text ↔ ∀ s, s <:+ text → matchProject s = none := by
  induction text with
  | nil =>
    refine iff_of_true rfl ?_
    intro s hs
    rw [eq_nil_of_suffix_nil hs]
    rfl
  | cons c cs ih =>
    cases hold : matchProject (c :: cs) with
    | some space =>
      refine iff_of_false ?_ fun h => ?_
      · intro heq
        -- what is put in is shorter than what it stands for
        have hlong := length_of_matchProject hold
        have hrest := length_rewriteGo (openBraces.length + space.length + (js "project.").length - 1) cs
        have h3 : openBraces.length = 3 := rfl
        have h5 : (js "vars.").length = 5 := rfl
        have h8 : (js "project.").length = 8 := rfl
        have hlen := congrArg List.length heq
        simp only [rewriteGo, hold, length_append, length_cons] at hlen hlong
        omega
      · rw [h _ suffix_rfl] at hold
        cases hold
    | none =>
      have hstep : rewriteGo 0 (c :: cs) = c :: rewriteGo 0 cs := by simp only [rewriteGo, hold]
      rw [hstep, List.cons.injEq, ih]
      constructor
      · rintro ⟨-, h⟩ s hs
        rcases suffix_cons_iff.mp hs with rfl | hs
        · exact hold
        · exact h s hs
      · intro h
        exact ⟨rfl, fun s hs => h s (hs.trans (suffix_cons c cs))⟩

/-- **A text stays as it is exactly when it holds no reference of the old form.** -/
theorem rewriteProjectReferences_eq_self_iff (text : JsString) :
    rewriteProjectReferences text = text ↔ hasOldReference text = false := by
  unfold rewriteProjectReferences hasOldReference
  rw [rewriteGo_eq_self_iff, any_eq_false]
  simp [mem_tails]

/-! ## What passes is left alone -/

theorem printable_isFolderUnit : Printable isFolderUnit := by
  intro c hc
  simp [isFolderUnit, isLetter, isDigit, cu, UInt16.le_iff_toNat_le, ← UInt16.toNat_inj] at hc
  omega

/-- A folder that passes has no white space at its ends. -/
theorem trim_of_isValidRootDirectory {value : JsString} (h : isValidRootDirectory value = true) :
    trim value = value := by
  simp only [isValidRootDirectory, Bool.and_eq_true, all_eq_true] at h
  have hunit : ∀ c ∈ value, isSpace c = false := by
    intro c hc
    by_cases hslash : c = cu '/'
    · rw [hslash]
      rfl
    · obtain ⟨segment, hsegment, hmem⟩ := exists_mem_split_unit hc hslash
      have hfolder := (h.2 segment hsegment).1.1
      simp only [isFolder, Bool.and_eq_true, all_eq_true] at hfolder
      exact not_space_of_printable printable_isFolderUnit (hfolder.2 c hmem)
  refine trim_eq_self ?_ ?_
  · intro c hc
    exact hunit c (List.mem_of_head? hc)
  · intro c hc
    exact hunit c (List.mem_of_getLast? hc)

end Aoox.FieldChecks
