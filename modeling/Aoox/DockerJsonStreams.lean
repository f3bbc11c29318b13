import Aoox.DockerFrames

/-! # The JSON streams of Docker

Image pulls, pushes and builds, and the event stream, answer with one JSON message
on each line.  `jsonStream` and `streamEvents` decode every chunk of the response
as it comes, put what is left of the last line in front of the next chunk and parse
the lines that are complete.

The lines do not depend on the cuts (`messagesOf_eq`), but the text does: a
character that two chunks share is decoded in two pieces.  And what stands behind
the last newline is never parsed.  So all messages come through exactly when the
last one ends with a newline and no chunk begins inside a character
(`delivers_iff`).
-/
namespace Aoox.DockerJsonStreams
open JsString DockerFrames List

/-! ## The two readers -/

def newline : CodeUnit := cu '\n'

section Readers
variable {Msg : Type} (parse : JsString → Option Msg)

/-- The complete lines of a chunk behind what was carried over, and what to carry. -/
def linesOf (carry : JsString) (chunk : Buffer) : List JsString × JsString :=
  let lines := split (carry ++ toText chunk) [newline]
  (lines.dropLast, lines.getLastD [])

/-- Blank lines are left out, and so are those that cannot be parsed. -/
def parseLine (line : JsString) : Option Msg := if trim line = [] then none else parse line

/-- The messages of the lines, chunk after chunk. -/
def messagesOf : JsString → List Buffer → List Msg
  | _, [] => []
  | carry, chunk :: chunks =>
    (linesOf carry chunk).1.filterMap (parseLine parse) ++ messagesOf (linesOf carry chunk).2 chunks

/-- `onLine` is called for every message. -/
def streamEvents (chunks : List Buffer) : List Msg := messagesOf parse [] chunks

/-- A message with an error that is not empty, when there was none before. -/
def noteError (errorOf : Msg → Option JsString) (firstError : Option JsString) (msg : Msg) :
    Option JsString :=
  match firstError with
  | some e => some e
  | none => (errorOf msg).filter (· ≠ [])

/-- The messages, and the error the operation fails with. -/
def jsonStream (errorOf : Msg → Option JsString) (chunks : List Buffer) :
    List Msg × Option JsString :=
  (messagesOf parse [] chunks, (messagesOf parse [] chunks).foldl (noteError errorOf) none)

end Readers

/-! ## The lines of the whole text -/

/-- **The chunks only matter for what they decode to.** -/
theorem messagesOf_eq {Msg : Type} (parse : JsString → Option Msg) (carry : JsString)
    (chunks : List Buffer) (hcarry : newline ∉ carry) :
    messagesOf parse carry chunks =
      (split (carry ++ chunks.flatMap toText) [newline]).dropLast.filterMap (parseLine parse) := by
  induction chunks generalizing carry with
  | nil =>
    rw [flatMap_nil, append_nil, split_of_not_mem hcarry]
    rfl
  | cons chunk chunks ih =>
    have hne : split (carry ++ toText chunk) [newline] ≠ [] := splitGo_ne_nil _ _ _
    have hlast : (split (carry ++ toText chunk) [newline]).getLastD [] ∈
        split (carry ++ toText chunk) [newline] := by
      rw [List.getLastD_eq_getLast?, getLast?_eq_some_getLast hne]
      exact getLast_mem hne
    have hrest : split ((split (carry ++ toText chunk) [newline]).getLastD [] ++
        chunks.flatMap toText) [newline] ≠ [] := splitGo_ne_nil _ _ _
    rw [flatMap_cons, ← append_assoc, split_append, dropLast_append_of_ne_nil hrest,
      filterMap_append, messagesOf]
    exact congrArg _ (ih _ (not_mem_of_mem_splitGo hlast))

/-! ## Messages on the wire -/

/-- The text in JavaScript. -/
def ofChars (text : List Char) : JsString := text.flatMap utf16

/-- A message the daemon sends: one line that is not blank. -/
structure Message where
  text : List Char
  line : newline ∉ ofChars text
  notBlank : trim (ofChars text) ≠ []

/-- What the daemon sends, with or without a newline at the end. -/
def wire (messages : List Message) (final : Bool) : List Char :=
  ['\n'].intercalate (messages.map Message.text) ++ if final && messages ≠ [] then ['\n'] else []

/-- All messages come through, in order, and the operation fails when one carries an error. -/
def Delivers (messages : List Message) (chunks : List Buffer) : Prop :=
  ∀ (Msg : Type) (parse : JsString → Option Msg) (errorOf : Msg → Option JsString),
    (∀ m ∈ messages, (parse (ofChars m.text)).isSome) →
      streamEvents parse chunks = messages.filterMap (fun m => parse (ofChars m.text)) ∧
        (jsonStream parse errorOf chunks).1 = messages.filterMap (fun m => parse (ofChars m.text)) ∧
          ((jsonStream parse errorOf chunks).2.isSome ↔
            ∃ m ∈ messages, ∃ msg e, parse (ofChars m.text) = some msg ∧ errorOf msg = some e ∧
              e ≠ [])

theorem foldl_noteError {Msg : Type} (errorOf : Msg → Option JsString) (msgs : List Msg) :
    (msgs.foldl (noteError errorOf) none).isSome ↔
      ∃ msg ∈ msgs, ∃ e, errorOf msg = some e ∧ e ≠ [] := by
  have hkeep : ∀ (msgs : List Msg) (e : JsString),
      msgs.foldl (noteError errorOf) (some e) = some e := by
    intro msgs e
    induction msgs with
    | nil => rfl
    | cons msg msgs ih => exact ih
  induction msgs with
  | nil => simp
  | cons msg msgs ih =>
    have hstep : noteError errorOf none msg = (errorOf msg).filter (· ≠ []) := rfl
    rw [foldl_cons, hstep]
    cases herror : (errorOf msg).filter (· ≠ []) with
    | none =>
      refine ih.trans ?_
      have hno : ¬∃ e, errorOf msg = some e ∧ e ≠ [] := by
        rintro ⟨e, he, hne⟩
        simp [he, hne] at herror
      simp [hno]
    | some e =>
      rw [hkeep]
      obtain ⟨he, hne⟩ := Option.filter_eq_some_iff.mp herror
      exact iff_of_true rfl ⟨msg, mem_cons_self, e, he, of_decide_eq_true hne⟩

def parsedLines (chunks : List Buffer) : List JsString :=
  (split (chunks.flatMap toText) [newline]).dropLast.filter fun line => trim line ≠ []

/-- **Everything comes through exactly when the lines parsed are the messages.** -/
theorem delivers_iff_parsedLines (messages : List Message) (chunks : List Buffer) :
    Delivers messages chunks ↔ parsedLines chunks = messages.map fun m => ofChars m.text := by
  have heq : ∀ (Msg : Type) (parse : JsString → Option Msg),
      messagesOf parse [] chunks = (parsedLines chunks).filterMap parse := by
    intro Msg parse
    rw [messagesOf_eq parse [] chunks not_mem_nil, parsedLines, filterMap_filter]
    refine filterMap_congr fun line _ => ?_
    rw [parseLine]
    split <;> simp_all
  constructor
  · intro h
    obtain ⟨hevents, -⟩ := h JsString some (fun _ => none) fun m _ => rfl
    rw [streamEvents, heq, filterMap_some] at hevents
    rw [hevents]
    exact congrFun filterMap_eq_map' messages
  · intro h Msg parse errorOf _
    have hmessages : messagesOf parse [] chunks =
        messages.filterMap fun m => parse (ofChars m.text) := by
      rw [heq, h, filterMap_map]
      rfl
    refine ⟨hmessages, hmessages, ?_⟩
    rw [jsonStream, foldl_noteError, hmessages]
    constructor
    · rintro ⟨msg, hmsg, e, he, hne⟩
      obtain ⟨m, hm, hparse⟩ := mem_filterMap.mp hmsg
      exact ⟨m, hm, msg, e, hparse, he, hne⟩
    · rintro ⟨m, hm, msg, e, hparse, he, hne⟩
      exact ⟨msg, mem_filterMap.mpr ⟨m, hm, hparse⟩, e, he, hne⟩

/-! ## What garbling leaves -/

theorem ofChars_cons (c : Char) (text : List Char) :
    ofChars (c :: text) = utf16 c ++ ofChars text :=
  rfl

theorem ofChars_append (a b : List Char) : ofChars (a ++ b) = ofChars a ++ ofChars b :=
  flatMap_append

def replacementUnit : CodeUnit := 0xFFFD

/-- Above ASCII there is no newline, and at most one replacement character. -/
theorem count_utf16 {c : Char} (hc : 0x80 ≤ c.toNat) :
    (utf16 c).count newline = 0 ∧ (utf16 c).count replacementUnit ≤ 1 := by
  have hmax : c.toNat < 0x110000 := by
    rcases c.valid with h | h
    · exact Nat.lt_trans h (by decide)
    · exact h.2
  rw [utf16]
  split
  · rename_i hlt
    have hne : cu c ≠ newline := by
      intro he
      have hnat := congrArg UInt16.toNat he
      rw [toNat_cu hlt] at hnat
      have hten : newline.toNat = 10 := by decide
      omega
    exact ⟨by simp [hne], count_le_length⟩
  · -- both units are surrogates
    have hhigh : ((0xD800 + (c.toNat - 0x10000) / 0x400).toUInt16).toNat =
        0xD800 + (c.toNat - 0x10000) / 0x400 := by
      rw [Nat.toUInt16, UInt16.toNat_ofNat']
      omega
    have hlow : ((0xDC00 + (c.toNat - 0x10000) % 0x400).toUInt16).toNat =
        0xDC00 + (c.toNat - 0x10000) % 0x400 := by
      rw [Nat.toUInt16, UInt16.toNat_ofNat']
      omega
    have hne : ∀ u : CodeUnit, u.toNat < 0xD800 ∨ 0xE000 ≤ u.toNat →
        [(0xD800 + (c.toNat - 0x10000) / 0x400).toUInt16,
          (0xDC00 + (c.toNat - 0x10000) % 0x400).toUInt16].count u = 0 := by
      intro u hu
      rw [count_eq_zero, mem_pair]
      rintro (rfl | rfl)
      · omega
      · omega
    exact ⟨hne newline (.inl (by decide)), (hne replacementUnit (.inr (by decide))).le.trans (by omega)⟩

theorem utf16_replacement : utf16 Utf8.replacement = [replacementUnit] := by decide

/-- Garbling keeps the newlines, and adds replacement characters. -/
theorem Garbled_count {text text' : List Char} (h : Utf8.Garbled text text') :
    (ofChars text').count newline = (ofChars text).count newline ∧
      (ofChars text).count replacementUnit ≤ (ofChars text').count replacementUnit ∧
        ((ofChars text').count replacementUnit = (ofChars text).count replacementUnit → text' = text) := by
  have hnewline : newline ≠ replacementUnit := by decide
  have hreplicate : ∀ n, ofChars (replicate n Utf8.replacement) = replicate n replacementUnit := by
    intro n
    induction n with
    | zero => rfl
    | succ n ih => rw [replicate_succ, ofChars_cons, ih, utf16_replacement]; rfl
  induction h with
  | nil => exact ⟨rfl, le_rfl, fun _ => rfl⟩
  | keep c _ ih =>
    obtain ⟨hlines, hle, heq⟩ := ih
    simp only [ofChars_cons, count_append]
    refine ⟨by omega, by omega, fun h => ?_⟩
    rw [heq (by omega)]
  | cut hc n _ ih =>
    obtain ⟨hlines, hle, -⟩ := ih
    obtain ⟨hzero, hone⟩ := count_utf16 hc
    simp only [ofChars_cons, ofChars_append, count_append, hreplicate, hzero,
      count_replicate, beq_iff_eq, Ne.symm hnewline, if_false, if_true]
    refine ⟨by omega, by omega, fun h => ?_⟩
    omega

theorem Garbled_newline {text text' : List Char} (h : Utf8.Garbled (text ++ ['\n']) text') :
    ∃ before, text' = before ++ ['\n'] := by
  induction text generalizing text' with
  | nil =>
    cases h with
    | keep _ h =>
      cases h
      exact ⟨[], rfl⟩
    | cut hc n h => exact absurd hc (by decide)
  | cons c text ih =>
    cases h with
    | keep _ h =>
      obtain ⟨before, rfl⟩ := ih h
      exact ⟨c :: before, rfl⟩
    | cut hc n h =>
      obtain ⟨before, rfl⟩ := ih h
      exact ⟨_, (append_assoc ..).symm⟩

/-! ## Where everything comes through -/

theorem ofChars_wire (messages : List Message) (final : Bool) :
    ofChars (wire messages final) = join (messages.map fun m => ofChars m.text) [newline] ++
      if final && messages ≠ [] then [newline] else [] := by
  have hjoin : ∀ texts : List (List Char),
      ofChars (['\n'].intercalate texts) = join (texts.map ofChars) [newline] := by
    intro texts
    induction texts with
    | nil => rfl
    | cons text texts ih =>
      cases texts with
      | nil => simp [join]
      | cons text' texts =>
        rw [intercalate_cons_cons, ofChars_append, ofChars_append, ih]
        have hnewline : ofChars ['\n'] = [newline] := rfl
        simp [join, intercalate_cons_cons, hnewline]
  rw [wire, ofChars_append, hjoin, map_map]
  congr 1
  split <;> rfl

/-- The lines of what is sent. -/
theorem split_wire {messages : List Message} (hne : messages ≠ []) (final : Bool) :
    split (ofChars (wire messages final)) [newline] =
      (messages.map fun m => ofChars m.text) ++ if final then [[]] else [] := by
  have hlines : split (join (messages.map fun m => ofChars m.text) [newline]) [newline] =
      messages.map fun m => ofChars m.text := by
    refine split_join_unit (by simpa using hne) fun p hp => ?_
    obtain ⟨m, -, rfl⟩ := mem_map.mp hp
    exact m.line
  rw [ofChars_wire]
  cases final with
  | false => simp [hlines]
  | true =>
    rw [if_pos (by simpa using hne), split_append_unit, hlines]
    rfl

/-- Text that comes back whole. -/
theorem flatMap_toText (chunks : List Buffer) :
    chunks.flatMap toText = ofChars (chunks.flatMap Utf8.decode) := by
  rw [ofChars, flatMap_assoc]
  rfl

theorem filter_messages (messages : List Message) :
    (messages.map fun m => ofChars m.text).filter (fun line => trim line ≠ []) =
      messages.map fun m => ofChars m.text := by
  refine filter_eq_self.mpr fun line hline => ?_
  obtain ⟨m, -, rfl⟩ := mem_map.mp hline
  exact decide_eq_true m.notBlank

/-- **Exactly where the messages come through.** -/
theorem delivers_iff {messages : List Message} {final : Bool} {chunks : List Buffer}
    (h : chunks.flatten = Utf8.encode (wire messages final)) :
    Delivers messages chunks ↔
      (final = true ∨ messages = []) ∧ ∀ chunk ∈ chunks, Utf8.Clean chunk := by
  obtain ⟨hgarbled, hclean⟩ := Utf8.decode_chunks h
  obtain ⟨hlines, -, hwhole⟩ := Garbled_count hgarbled
  rw [delivers_iff_parsedLines, parsedLines, flatMap_toText, hclean]
  by_cases hnil : messages = []
  · subst hnil
    have hempty : chunks.flatMap Utf8.decode = [] := by
      have hwire : wire [] final = [] := by simp [wire]
      rw [hwire] at hgarbled
      generalize chunks.flatMap Utf8.decode = text' at hgarbled ⊢
      cases hgarbled
      rfl
    rw [hempty]
    simp [wire, ofChars, split, splitGo]
  have hlength : (split (ofChars (chunks.flatMap Utf8.decode)) [newline]).length =
      messages.length + if final then 1 else 0 := by
    rw [length_split_unit, hlines, ← length_split_unit, split_wire hnil]
    cases final <;> simp
  constructor
  · intro hparsed
    have hcount := congrArg List.length hparsed
    rw [List.length_map] at hcount
    have hle := List.length_filter_le (fun line => decide (trim line ≠ []))
      (split (ofChars (chunks.flatMap Utf8.decode)) [newline]).dropLast
    rw [List.length_dropLast, hlength] at hle
    cases final with
    | false =>
      have hpos := List.length_pos_iff.mpr hnil
      simp only [Bool.false_eq_true, if_false] at hle
      omega
    | true =>
      refine ⟨.inl rfl, hwhole ?_⟩
      -- no line is blank, so the lines themselves are the messages
      have hall : (split (ofChars (chunks.flatMap Utf8.decode)) [newline]).dropLast =
          messages.map fun m => ofChars m.text := by
        rw [← hparsed]
        refine (List.filter_eq_self.mpr (List.length_filter_eq_length_iff.mp ?_)).symm
        rw [hcount, List.length_dropLast, hlength]
        rfl
      obtain ⟨before, hbefore⟩ : ∃ before, chunks.flatMap Utf8.decode = before ++ ['\n'] := by
        refine @Garbled_newline (['\n'].intercalate (messages.map Message.text)) _ ?_
        have hwire : wire messages true =
            ['\n'].intercalate (messages.map Message.text) ++ ['\n'] := by
          rw [wire, if_pos (by simpa using hnil)]
        rwa [← hwire]
      have hsplit : split (ofChars (chunks.flatMap Utf8.decode)) [newline] =
          split (ofChars before) [newline] ++ [[]] := by
        rw [hbefore, ofChars_append]
        exact split_append_unit newline (ofChars before) []
      rw [hsplit, List.dropLast_concat] at hall
      have hsame : split (ofChars (chunks.flatMap Utf8.decode)) [newline] =
          split (ofChars (wire messages true)) [newline] := by
        rw [hsplit, hall, split_wire hnil]
        rfl
      rw [← join_split_unit newline (ofChars (chunks.flatMap Utf8.decode)), hsame, join_split_unit]
  · rintro ⟨hfinal, htext⟩
    have hfinal := hfinal.resolve_right hnil
    subst hfinal
    rw [htext, split_wire hnil, if_pos rfl, List.dropLast_concat, filter_messages]

/-- Two messages, cut between characters. -/
theorem delivers_two :
    Delivers [⟨['\x7b', '"', 'é', '"', '\x7d'], by decide, by decide⟩, ⟨['0'], by decide, by decide⟩]
      [[123, 34, 195, 169], [34, 125, 10, 48], [10]] :=
  (@delivers_iff _ true _ (by decide)).mpr ⟨.inl rfl, by decide⟩

/-- `{"error":"é"}`, once without the newline and once with a cut inside the `é`. -/
theorem not_delivers_error :
    [[123, 34, 101, 114, 114, 111, 114, 34, 58, 34, 195, 169, 34, 125]].flatten =
        Utf8.encode (wire [⟨"\x7b\"error\":\"é\"\x7d".toList, by decide, by decide⟩] false) ∧
      ¬Delivers [⟨"\x7b\"error\":\"é\"\x7d".toList, by decide, by decide⟩]
        [[123, 34, 101, 114, 114, 111, 114, 34, 58, 34, 195, 169, 34, 125]] ∧
      [[123, 34, 101, 114, 114, 111, 114, 34, 58, 34, 195], [169, 34, 125, 10]].flatten =
        Utf8.encode (wire [⟨"\x7b\"error\":\"é\"\x7d".toList, by decide, by decide⟩] true) ∧
      ¬Delivers [⟨"\x7b\"error\":\"é\"\x7d".toList, by decide, by decide⟩]
        [[123, 34, 101, 114, 114, 111, 114, 34, 58, 34, 195], [169, 34, 125, 10]] := by
  refine ⟨by decide, ?_, by decide, ?_⟩
  · rw [delivers_iff_parsedLines]
    decide
  · rw [delivers_iff_parsedLines]
    decide

end Aoox.DockerJsonStreams
