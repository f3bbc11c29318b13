import Aoox.JsString
import Mathlib.Data.List.Sort

/-! # Masking secrets in log text (`application/log-redaction.ts`)

`Redactor` keeps the registered secrets and their masked *forms* (raw and
URL-encoded, longest first) and replaces every form in a text.  `StreamRedactor`
does the same for text that arrives in chunks: the tail of what it has seen that
could still grow into a form is held back until the next chunk or the flush.

The two facts the source relies on without stating them are fields of the
structure: a form is never empty, and without a registered secret there are no
forms.
-/
namespace Aoox
open JsString

/-- `'*'`. -/
def star : CodeUnit := cu '*'

/-- `'***'`, written for every occurrence of a form. -/
def maskText : JsString := js "***"

/-- The registered secrets and their forms. -/
structure Redactor where
  /-- `private forms: string[]`. -/
  forms : List JsString
  /-- `private known: Set<string>`, in insertion order. -/
  known : List JsString
  forms_ne_nil : ∀ f ∈ forms, f ≠ []
  forms_of_known : known = [] → forms = []

namespace Redactor

/-- `new Redactor()`. -/
def new : Redactor := ⟨[], [], by simp, fun _ => rfl⟩

/-- The forms after registering a secret whose encoded form is given: distinct,
non-empty, longest first and otherwise in the order of registration. -/
def nextForms (forms : List JsString) (secret encoded : JsString) : List JsString :=
  ((forms ++ [secret, encoded]).eraseDups.filter (fun f => 0 < f.length)).insertionSort
    (fun a b => b.length ≤ a.length)

theorem mem_nextForms {forms : List JsString} {secret encoded f : JsString} :
    f ∈ nextForms forms secret encoded ↔ (f ∈ forms ∨ f = secret ∨ f = encoded) ∧ f ≠ [] := by
  simp [nextForms, List.mem_insertionSort, List.mem_eraseDups, List.length_pos_iff]

/-- `add(secret)`.  The flag says that the call threw: `known` is written before
`encodeURIComponent` runs, so a secret with a lone surrogate is known without a
form. -/
def add (r : Redactor) (secret : Option JsString) : Redactor × Bool :=
  match secret with
  | none => (r, false)
  | some s =>
    if s = [] ∨ s ∈ r.known then (r, false)
    else
      match encodeURIComponent s with
      | none => (⟨r.forms, r.known ++ [s], r.forms_ne_nil, by simp⟩, true)
      | some e =>
        (⟨nextForms r.forms s e, r.known ++ [s], fun _ hf => (mem_nextForms.mp hf).2, by simp⟩,
          false)

/-- `addAll(secrets)`; a throw ends the loop. -/
def addAll (r : Redactor) : List JsString → Redactor × Bool
  | [] => (r, false)
  | s :: ss =>
    match r.add (some s) with
    | (r', true) => (r', true)
    | (r', false) => addAll r' ss

/-- One pass of the loop of `apply`. -/
def maskForm (text f : JsString) : JsString :=
  if includes text f then join (split text f) maskText else text

/-- `apply(text)`: the forms one after another, longest first. -/
def apply (r : Redactor) (text : JsString) : JsString := r.forms.foldl maskForm text

def size (r : Redactor) : Nat := r.known.length

def patterns (r : Redactor) : List JsString := r.forms

/-- A registered form stays registered. -/
theorem mem_patterns_add (r : Redactor) (secret : Option JsString) {f : JsString}
    (hf : f ∈ r.patterns) : f ∈ (r.add secret).1.patterns := by
  unfold add
  split
  · exact hf
  · split
    · exact hf
    · split
      · exact hf
      · exact mem_nextForms.mpr ⟨Or.inl hf, r.forms_ne_nil f hf⟩

end Redactor

/-! ## Streams -/

/-- The stream's redactor and the text held back. -/
structure StreamRedactor where
  redactor : Redactor
  pending : JsString

namespace StreamRedactor

/-- The first loop of `safeLength` for one form: from occurrence to occurrence
of its first unit, up to the first suffix of the text that is a proper prefix of
the form.  `fuel` bounds the positions visited. -/
def heldGo (text f : JsString) : Nat → Option Nat → Option Nat
  | 0, _ => none
  | _ + 1, none => none
  | fuel + 1, some i =>
    if i < text.length then
      if startsWith f (sliceFrom text i) && decide (f.length > text.length - i) then some i
      else heldGo text f fuel (indexOf (f.take 1) text (i + 1))
    else none

/-- Where the text begins to be a proper prefix of `f`, if it does. -/
def held (text f : JsString) : Option Nat :=
  heldGo text f (text.length + 1) (indexOf (f.take 1) text (text.length + 1 - f.length))

/-- The first loop for one form: `cut` goes down to where the form could begin. -/
def lowerCut (text : JsString) (cut : Nat) (f : JsString) : Nat :=
  match held text f with
  | some i => min cut i
  | none => cut

/-- `cut` after the first loop. -/
def tentativeCut (forms : List JsString) (text : JsString) : Nat :=
  forms.foldl (lowerCut text) text.length

/-- The second loop for one form: the first occurrence from the given one on
that begins before `cut` and ends behind it. -/
def crossingGo (text f : JsString) (cut : Nat) : Nat → Option Nat → Option Nat
  | 0, _ => none
  | _ + 1, none => none
  | fuel + 1, some s =>
    if s < cut then
      if s + f.length > cut then some s
      else crossingGo text f cut fuel (indexOf f text (s + 1))
    else none

def crossing (text f : JsString) (cut : Nat) : Option Nat :=
  crossingGo text f cut (text.length + 1) (indexOf f text (cut - f.length))

/-- The second loop for one form: `cut` and `moved` after it. -/
def settleForm (text : JsString) (acc : Nat × Bool) (f : JsString) : Nat × Bool :=
  match crossing text f acc.1 with
  | some s => (s, true)
  | none => acc

def settleRound (forms : List JsString) (text : JsString) (cut : Nat) : Nat × Bool :=
  forms.foldl (settleForm text) (cut, false)

/-- The rounds, until one does not move the cut. -/
def settle (forms : List JsString) (text : JsString) : Nat → Nat → Nat
  | 0, cut => cut
  | fuel + 1, cut =>
    match settleRound forms text cut with
    | (cut', true) => settle forms text fuel cut'
    | (cut', false) => cut'

/-- `safeLength(text)`: the length of the head of `text` that can be released. -/
def safeLength (forms : List JsString) (text : JsString) : Nat :=
  settle forms text (text.length + 1) (tentativeCut forms text)

/-- `push(raw)`: the released text and the new state. -/
def push (s : StreamRedactor) (raw : JsString) : JsString × StreamRedactor :=
  let text := s.pending ++ raw
  if s.redactor.size = 0 then (text, { s with pending := [] })
  else
    let cut := safeLength s.redactor.patterns text
    (s.redactor.apply (sliceTo text cut), { s with pending := sliceFrom text cut })

/-- `flush()`. -/
def flush (s : StreamRedactor) : JsString × StreamRedactor :=
  (if s.pending = [] then [] else s.redactor.apply s.pending, { s with pending := [] })

/-- Every chunk pushed in turn, then a flush: all the text that came out. -/
def pushAll (s : StreamRedactor) : List JsString → JsString
  | [] => s.flush.1
  | raw :: rest => (s.push raw).1 ++ (s.push raw).2.pushAll rest

end StreamRedactor
end Aoox
