import Aoox.StoredText

/-! # URLs of the web

`new URL(text, base)` for the schemes `http` and `https`, after the parser of the URL Standard.  Its
states are functions on the text that is left: the scheme, the authority between the slashes, the
path with its dot segments, the query and the fragment.  What a host text stands for (domains in
Unicode, IPv4 and IPv6 addresses) is a parameter, and what is proved holds for every choice of it.
A text of another scheme is told apart and not read further.

The service a text leads to, that is scheme, host and port, depends on the base by the service of
the base only (`resolve_service`).  A path that starts with one slash changes nothing of the service
(`parse_append_path`), and without a backslash its segments are those between the slashes
(`segments_eq_split`).
-/
namespace Aoox.Urls
open JsString List Option

/-! ## URLs -/

inductive Protocol where
  | http | https
  deriving DecidableEq, Repr

def Protocol.defaultPort : Protocol → Nat
  | .http => 80
  | .https => 443

/-- A parsed URL.  A port that is the scheme's default is not kept. -/
structure Url where
  protocol : Protocol
  (credentials hostname : JsString)
  port : Option Nat
  path : List JsString
  (query fragment : Option JsString)
  port_ne : port ≠ some protocol.defaultPort
  deriving DecidableEq

/-- Scheme, host and port, which is what the origin of a URL is made of. -/
structure Service where
  protocol : Protocol
  hostname : JsString
  port : Option Nat

def Url.service (url : Url) : Service := ⟨url.protocol, url.hostname, url.port⟩

/-- The port a request goes to. -/
def Url.effectivePort (url : Url) : Nat := url.port.getD url.protocol.defaultPort

/-- What a text that parses stands for. -/
inductive Address where
  | web (url : Url)
  | foreign (scheme : JsString)
  deriving DecidableEq

/-! ## Percent encoding -/

/-- Encodes the code points that are not kept; a lone surrogate is the replacement character. -/
def encodeUnits (keep : CodeUnit → Bool) : JsString → JsString
  | [] => []
  | [c] => if keep c then [c] else percentEncode (loneUnit c).toNat
  | c :: d :: cs =>
    if keep c then c :: encodeUnits keep (d :: cs)
    else if isLeadSurrogate c && isTrailSurrogate d then
      percentEncode (0x10000 + (c.toNat - 0xD800) * 0x400 + (d.toNat - 0xDC00)) ++
        encodeUnits keep cs
    else percentEncode (loneUnit c).toNat ++ encodeUnits keep (d :: cs)

/-- Not a control and ASCII. -/
def isGraphic (c : CodeUnit) : Bool := 0x20 ≤ c && c ≤ 0x7E

def keptInFragment (c : CodeUnit) : Bool := isGraphic c && !(js " \"<>`").contains c

def keptInQuery (c : CodeUnit) : Bool := isGraphic c && !(js " \"#<>'").contains c

def keptInPath (c : CodeUnit) : Bool := isGraphic c && !(js " \"#<>?^`\x7b\x7d").contains c

/-! ## The path -/

def isSlash (c : CodeUnit) : Bool := c = cu '/' || c = cu '\\'

/-- Takes a dot off the front, written as itself or percent-encoded. -/
def dropDot : JsString → Option JsString
  | [] => none
  | c :: cs =>
    if c = cu '.' then some cs
    else
      match cs with
      | x :: y :: rest =>
        if c = cu '%' && x = cu '2' && (y = cu 'e' || y = cu 'E') then some rest else none
      | _ => none

def isSingleDot (segment : JsString) : Bool := dropDot segment = some []

def isDoubleDot (segment : JsString) : Bool := (dropDot segment).bind dropDot = some []

/-- The segments of a text: it is cut at every slash. -/
def segments : JsString → List JsString
  | [] => [[]]
  | c :: cs => if isSlash c then [] :: segments cs else consFirst c (segments cs)

/-- What the path state makes of the segments.  The last one is not followed by a slash. -/
def pushAll (path : List JsString) : List JsString → List JsString
  | [] => path
  | [s] =>
    if isDoubleDot s then path.dropLast ++ [[]]
    else if isSingleDot s then path ++ [[]]
    else path ++ [encodeUnits keptInPath s]
  | s :: rest =>
    if isDoubleDot s then pushAll path.dropLast rest
    else if isSingleDot s then pushAll path rest
    else pushAll (path ++ [encodeUnits keptInPath s]) rest

def isPathEnd (c : CodeUnit) : Bool := c = cu '?' || c = cu '#'

/-- Query and fragment of a text that is empty or starts with `?` or `#`. -/
def readTail (tail : JsString) : Option JsString × Option JsString :=
  let isHash (c : CodeUnit) : Bool := c = cu '#'
  let fragment := (tail.dropWhile (!isHash ·)).tail?.map (encodeUnits keptInFragment)
  let query := (tail.takeWhile (!isHash ·)).tail?.map (encodeUnits keptInQuery)
  (query, fragment)

/-- The path state: the segments go behind a path, then query and fragment. -/
def readPath (url : Url) (path : List JsString) (text : JsString) : Url :=
  let tail := readTail (text.dropWhile (!isPathEnd ·))
  { url with
    path := pushAll path (segments (text.takeWhile (!isPathEnd ·)))
    query := tail.1
    fragment := tail.2 }

/-! ## The authority -/

/-- `some none` is an empty port or the default one, `none` a failure. -/
def readPort (protocol : Protocol) (digits : JsString) :
    Option {port : Option Nat // port ≠ some protocol.defaultPort} :=
  if !digits.all isDigit then none
  else if digits = [] then some ⟨none, (Option.some_ne_none _).symm⟩
  else
    let n := digits.foldl (fun n c => 10 * n + (c.toNat - 48)) 0
    if 65535 < n then none
    else if h : n = protocol.defaultPort then some ⟨none, (Option.some_ne_none _).symm⟩
    else some ⟨some n, fun hn => h (Option.some.inj hn)⟩

/-- A text before and after its first colon outside brackets. -/
def splitPort (inside : Bool) : JsString → JsString × Option JsString
  | [] => ([], none)
  | c :: cs =>
    if c = cu ':' && !inside then ([], some cs)
    else
      let r := splitPort (c = cu '[' || inside && c ≠ cu ']') cs
      (c :: r.1, r.2)

/-- The text before the last `@`, and the text after it. -/
def splitCredentials (text : JsString) : Option JsString × JsString :=
  let isAt (c : CodeUnit) : Bool := c = cu '@'
  (if text.any isAt then some (text.rdropWhile (!isAt ·)).dropLast else none,
    text.rtakeWhile (!isAt ·))

def isAuthorityEnd (c : CodeUnit) : Bool := isSlash c || isPathEnd c

variable (hosts : JsString → Option JsString)

/-- The states from the authority to the port; path, query and fragment are still to be read. -/
def readAuthority (protocol : Protocol) (text : JsString) : Option Url := do
  let (credentials, rest) := splitCredentials text
  let (name, digits) := splitPort false rest
  if name = [] then none
  else
    let hostname ← hosts name
    let port ← readPort protocol (digits.getD [])
    return ⟨protocol, credentials.getD [], hostname, port.1, [], none, none, port.2⟩

/-- What follows the slashes of a URL with an authority. -/
def absolute (protocol : Protocol) (text : JsString) : Option Url := do
  let url ← readAuthority hosts protocol (text.takeWhile (!isAuthorityEnd ·))
  let rest := text.dropWhile (!isAuthorityEnd ·)
  return readPath url [] (if rest.head?.any isSlash then rest.tail else rest)

/-! ## The parser -/

def relative (base : Url) (text : JsString) : Option Url :=
  match text with
  | [] => some { base with fragment := none }
  | c :: rest =>
    if isSlash c then
      if rest.head?.any isSlash then absolute hosts base.protocol (rest.dropWhile isSlash)
      else some (readPath base [] rest)
    else if c = cu '?' then
      some { base with query := (readTail text).1, fragment := (readTail text).2 }
    else if c = cu '#' then some { base with fragment := (readTail text).2 }
    else some (readPath base base.path.dropLast text)

def isC0OrSpace (c : CodeUnit) : Bool := c ≤ 0x20

/-- Tab, line feed and carriage return. -/
def isTabOrNewline (c : CodeUnit) : Bool := c = 0x09 || c = 0x0A || c = 0x0D

/-- What the parser does to a text before it reads it. -/
def cleaned (text : JsString) : JsString :=
  ((text.dropWhile isC0OrSpace).rdropWhile isC0OrSpace).filter (!isTabOrNewline ·)

def isSchemeUnit (c : CodeUnit) : Bool := isLetter c || isDigit c || (js "+-.").contains c

/-- The scheme in lower case and the text after its colon. -/
def readScheme (text : JsString) : Option (JsString × JsString) :=
  match text.dropWhile isSchemeUnit with
  | [] => none
  | c :: rest =>
    if c = cu ':' && text.head?.any isLetter then
      some (toLowerCase (text.takeWhile isSchemeUnit), rest)
    else none

def protocolOf (scheme : JsString) : Option Protocol :=
  if scheme = js "http" then some .http
  else if scheme = js "https" then some .https
  else none

/-- `new URL(text, base)`; `none` is its `TypeError`.  Nothing asks whether the rest of a URL of
another scheme is well formed. -/
def parse (base : Option Url) (text : JsString) : Option Address :=
  match readScheme (cleaned text) with
  | some (scheme, rest) =>
    match protocolOf scheme with
    | none => some (.foreign scheme)
    | some protocol =>
      match base with
      | some b =>
        if b.protocol = protocol && !startsWith rest (js "//") then (relative hosts b rest).map .web
        else (absolute hosts protocol (rest.dropWhile isSlash)).map .web
      | none => (absolute hosts protocol (rest.dropWhile isSlash)).map .web
  | none => (base.bind fun b => relative hosts b (cleaned text)).map .web


/-! ## The service -/

def serviceOf (address : Option Address) : Option Service :=
  match address with
  | some (.web url) => some url.service
  | _ => none

theorem serviceOf_map (url : Option Url) : serviceOf (url.map .web) = url.map Url.service := by
  cases url <;> rfl

variable {b b' : Url}

theorem relative_service (h : b.service = b'.service) (text : JsString) :
    (relative hosts b text).map Url.service = (relative hosts b' text).map Url.service := by
  have hprotocol : b.protocol = b'.protocol := congrArg Service.protocol h
  cases text with
  | nil => exact congrArg some h
  | cons c rest =>
    unfold relative
    dsimp only
    split_ifs
    · rw [hprotocol]
    · exact congrArg some h
    · exact congrArg some h
    · exact congrArg some h
    · exact congrArg some h

/-- **Where a text leads.**  Two bases of one service take a text to one service. -/
theorem resolve_service (h : b.service = b'.service) (text : JsString) :
    serviceOf (parse hosts (some b) text) = serviceOf (parse hosts (some b') text) := by
  have hprotocol : b.protocol = b'.protocol := congrArg Service.protocol h
  unfold parse
  cases readScheme (cleaned text) with
  | none =>
    simp only [bind_some, serviceOf_map]
    exact relative_service hosts h _
  | some r =>
    obtain ⟨scheme, rest⟩ := r
    dsimp only
    cases protocolOf scheme with
    | none => rfl
    | some protocol =>
      dsimp only
      rw [hprotocol]
      split_ifs
      · rw [serviceOf_map, serviceOf_map]
        exact relative_service hosts h rest
      · rfl

/-! ## A base and a path behind it -/

def Protocol.text : Protocol → JsString
  | .http => js "http"
  | .https => js "https"

variable {p : CodeUnit → Bool} {text : JsString}

theorem rdropWhile_none (h : ∀ c ∈ text, p c = false) : text.rdropWhile p = text := by
  rw [rdropWhile_eq_self_iff]
  intro hne
  rw [h _ (getLast_mem hne)]
  exact Bool.false_ne_true

theorem dropWhile_none (h : ∀ c ∈ text, p c = false) : text.dropWhile p = text := by
  cases text with
  | nil => rfl
  | cons c cs => rw [dropWhile_cons, h c mem_cons_self, if_neg Bool.false_ne_true]

variable {rest : JsString}

theorem dropWhile_stop (h : ∀ c ∈ text, p c = true)
    (hrest : ∀ c, rest.head? = some c → p c = false) : (text ++ rest).dropWhile p = rest := by
  rw [dropWhile_append_of_pos h]
  cases rest with
  | nil => rfl
  | cons c cs => rw [dropWhile_cons, hrest c rfl, if_neg Bool.false_ne_true]

theorem takeWhile_stop (h : ∀ c ∈ text, p c = true)
    (hrest : ∀ c, rest.head? = some c → p c = false) : (text ++ rest).takeWhile p = text := by
  rw [takeWhile_append_of_pos h]
  cases rest with
  | nil => simp
  | cons c cs => rw [takeWhile_cons, hrest c rfl, if_neg Bool.false_ne_true, append_nil]

/-- A text without blanks and controls is read as it is. -/
theorem cleaned_eq (h : ∀ c ∈ text, 0x20 < c) : cleaned text = text := by
  have hblank : ∀ c ∈ text, isC0OrSpace c = false := by
    intro c hc
    rw [isC0OrSpace, decide_eq_false_iff_not]
    exact UInt16.not_le.mpr (h c hc)
  rw [cleaned, dropWhile_none hblank, rdropWhile_none hblank]
  refine filter_eq_self.mpr fun c hc => ?_
  have hlt := h c hc
  simp only [isTabOrNewline, Bool.not_or, Bool.and_eq_true, Bool.not_eq_true',
    decide_eq_false_iff_not]
  refine ⟨⟨?_, ?_⟩, ?_⟩ <;> rintro rfl <;> exact absurd hlt (by decide)

theorem readScheme_append (p : Protocol) (rest : JsString) :
    readScheme (p.text ++ js "://" ++ rest) = some (p.text, js "//" ++ rest) := by
  have hunits : ∀ c ∈ p.text, isSchemeUnit c = true := all_eq_true.mp (by cases p <;> decide)
  have hhead : (p.text ++ cu ':' :: (js "//" ++ rest)).head?.any isLetter = true := by
    cases p <;> rfl
  have hlower : toLowerCase p.text = p.text := by cases p <;> decide
  have htext : p.text ++ js "://" ++ rest = p.text ++ cu ':' :: (js "//" ++ rest) := by
    rw [append_assoc]
    rfl
  have hcolon : ∀ c, (cu ':' :: (js "//" ++ rest)).head? = some c → isSchemeUnit c = false := by
    rintro c ⟨⟩
    decide
  rw [htext, readScheme, dropWhile_stop hunits hcolon]
  dsimp only
  rw [hhead, takeWhile_stop hunits hcolon, hlower]
  rfl

theorem protocolOf_text (p : Protocol) : protocolOf p.text = some p := by
  cases p <;> rfl

variable {c : CodeUnit}

theorem blank_lt_scheme (p : Protocol) (h : c ∈ p.text ++ js "://") : 0x20 < c := by
  have hall : (p.text ++ js "://").all (fun c => decide (0x20 < c)) = true := by cases p <;> decide
  exact of_decide_eq_true (all_eq_true.mp hall c h)

theorem parse_absolute (p : Protocol) (h : ∀ c ∈ rest, 0x20 < c) :
    parse hosts none (p.text ++ js "://" ++ rest) =
      (absolute hosts p (rest.dropWhile isSlash)).map .web := by
  have hclean : cleaned (p.text ++ js "://" ++ rest) = p.text ++ js "://" ++ rest := by
    refine cleaned_eq fun c hc => ?_
    rcases mem_append.mp hc with hc | hc
    · exact blank_lt_scheme p hc
    · exact h c hc
  have hslashes : (js "//" ++ rest).dropWhile isSlash = rest.dropWhile isSlash := rfl
  rw [parse, hclean, readScheme_append]
  simp only [protocolOf_text, hslashes]

/-- `host[:port]` -/
def IsAuthority (text : JsString) : Prop := ∀ c ∈ text, 0x20 < c ∧ isAuthorityEnd c = false

variable {a : JsString}

theorem IsAuthority.dropWhile_isSlash (ha : IsAuthority a) (rest : JsString)
    (hne : a ≠ []) : (a ++ rest).dropWhile isSlash = a ++ rest := by
  obtain ⟨c, cs, rfl⟩ := exists_cons_of_ne_nil hne
  have hc : isSlash c = false := (Bool.or_eq_false_iff.mp (ha c mem_cons_self).2).1
  rw [cons_append, dropWhile_cons, hc, if_neg Bool.false_ne_true]

theorem absolute_append (p : Protocol) (rest : JsString) (ha : IsAuthority a)
    (hrest : ∀ c, rest.head? = some c → isAuthorityEnd c = true) :
    absolute hosts p (a ++ rest) = (readAuthority hosts p a).map fun url =>
      readPath url [] (if rest.head?.any isSlash then rest.tail else rest) := by
  have hgo : ∀ c ∈ a, (!isAuthorityEnd c) = true := fun c hc => by rw [(ha c hc).2]; rfl
  have hstop : ∀ c, rest.head? = some c → (!isAuthorityEnd c) = false :=
    fun c hc => by rw [hrest c hc]; rfl
  rw [absolute, takeWhile_stop hgo hstop, dropWhile_stop hgo hstop]
  cases readAuthority hosts p a <;> rfl

theorem readAuthority_nil (p : Protocol) : readAuthority hosts p [] = none := rfl

/-- **A path behind a base.**  What is parsed is the base with the path read into it. -/
theorem parse_append_path (p : Protocol) {path : JsString} (ha : IsAuthority a)
    (hpath : ∀ c ∈ cu '/' :: path, 0x20 < c)
    (hb : parse hosts none (p.text ++ js "://" ++ a) = some (.web b)) :
    parse hosts none (p.text ++ js "://" ++ a ++ cu '/' :: path) =
      some (.web (readPath b [] path)) := by
  have hne : a ≠ [] := by
    rintro rfl
    rw [parse_absolute hosts p (by simp)] at hb
    cases hb
  have hbase := absolute_append hosts p [] ha (by simp)
  have hwhole := absolute_append hosts p (cu '/' :: path) ha (by rintro c ⟨⟩; rfl)
  have hslash : ((cu '/' :: path).head?.any isSlash) = true := rfl
  rw [parse_absolute hosts p fun c hc => (ha c hc).1, ← append_nil a,
    ha.dropWhile_isSlash [] hne, hbase] at hb
  rw [append_assoc, parse_absolute hosts p, ha.dropWhile_isSlash _ hne, hwhole, hslash, if_pos rfl]
  · cases hread : readAuthority hosts p a with
    | none =>
      rw [hread] at hb
      cases hb
    | some url =>
      rw [hread] at hb
      cases hb
      rfl
  · intro c hc
    rcases mem_append.mp hc with hc | hc
    · exact (ha c hc).1
    · exact hpath c hc

/-- The path resolved against the base is the path behind the base. -/
theorem resolve_path {path : JsString} (hpath : ∀ c ∈ cu '/' :: path, 0x20 < c)
    (hslash : ∀ c, path.head? = some c → isSlash c = false) :
    parse hosts (some b) (cu '/' :: path) = some (.web (readPath b [] path)) := by
  have hscheme : readScheme (cu '/' :: path) = none := rfl
  have hhead : path.head?.any isSlash = false := by
    cases path with
    | nil => rfl
    | cons c cs => exact hslash c rfl
  rw [parse, cleaned_eq hpath, hscheme]
  simp only [bind_some, relative, hhead]
  rfl

/-! ## Dot segments -/

variable {keep : CodeUnit → Bool}

theorem encodeUnits_kept (h : keep c = true)
    (cs : JsString) : encodeUnits keep (c :: cs) = c :: encodeUnits keep cs := by
  cases cs <;> simp [encodeUnits, h]

theorem loneUnit_cases (c : CodeUnit) : loneUnit c = c ∨ loneUnit c = 0xFFFD := by
  unfold loneUnit
  split_ifs
  · exact .inr rfl
  · exact .inl rfl

/-- What is not kept is encoded as one code point. -/
theorem encodeUnits_other (h : keep c = false) (cs : JsString) :
    ∃ p rest, encodeUnits keep (c :: cs) = percentEncode p ++ encodeUnits keep rest ∧
      p < 0x110000 ∧ (p = c.toNat ∨ 0x80 ≤ p) := by
  have hlone : (loneUnit c).toNat < 0x110000 ∧
      ((loneUnit c).toNat = c.toNat ∨ 0x80 ≤ (loneUnit c).toNat) := by
    have hlt := (loneUnit c).toNat_lt
    refine ⟨by omega, ?_⟩
    rcases loneUnit_cases c with hc | hc <;> rw [hc]
    · exact .inl rfl
    · exact .inr (by decide)
  cases cs with
  | nil => exact ⟨_, [], by simp [encodeUnits, h], hlone⟩
  | cons d cs =>
    rw [encodeUnits, if_neg (by simp [h])]
    split_ifs with hpair
    · refine ⟨_, cs, rfl, ?_, .inr ?_⟩
      · rw [Bool.and_eq_true, isLeadSurrogate, isTrailSurrogate, Bool.and_eq_true, Bool.and_eq_true,
          decide_eq_true_eq, decide_eq_true_eq, decide_eq_true_eq, decide_eq_true_eq] at hpair
        have hc : c.toNat ≤ 0xDBFF := hpair.1.2
        have hd : d.toNat ≤ 0xDFFF := hpair.2.2
        omega
      · omega
    · exact ⟨_, d :: cs, rfl, hlone⟩

/-- An encoded code point is a dot only if it was one. -/
theorem dropDot_percentEncode {p : Nat} (hp : p < 0x110000) (hdot : p ≠ 0x2E) (rest : JsString) :
    dropDot (percentEncode p ++ rest) = none := by
  obtain ⟨b, bs, hbytes, hb, hne⟩ : ∃ b bs, utf8Bytes p = b :: bs ∧ b < 256 ∧ b ≠ 0x2E := by
    unfold utf8Bytes
    split_ifs
    · exact ⟨p, [], rfl, by omega, hdot⟩
    · exact ⟨_, _, rfl, by omega, by omega⟩
    · exact ⟨_, _, rfl, by omega, by omega⟩
    · exact ⟨_, _, rfl, by omega, by omega⟩
  have hhex : ∀ b < 256, b ≠ 0x2E → (hexDigit (b / 16) = cu '2' &&
      (hexDigit (b % 16) = cu 'e' || hexDigit (b % 16) = cu 'E')) = false := by decide +kernel
  have hdigits := hhex b hb hne
  rw [percentEncode, hbytes, flatMap_cons]
  simp only [cons_append, dropDot]
  rw [if_neg (by decide), if_neg]
  rw [Bool.and_assoc, hdigits, Bool.and_false]
  exact Bool.false_ne_true

/-- A unit of an encoding that is no percent sign is one of the text. -/
theorem encodeUnits_eq_cons {x : CodeUnit} (hx : x ≠ cu '%') {more : JsString}
    (h : encodeUnits keep text = x :: more) :
    ∃ rest, text = x :: rest ∧ more = encodeUnits keep rest := by
  cases text with
  | nil => cases h
  | cons c cs =>
    cases hc : keep c with
    | true =>
      rw [encodeUnits_kept hc] at h
      obtain ⟨rfl, rfl⟩ := List.cons.inj h
      exact ⟨cs, rfl, rfl⟩
    | false =>
      obtain ⟨p, rest, henc, -⟩ := encodeUnits_other hc cs
      obtain ⟨b, bs, hb⟩ : ∃ b bs, utf8Bytes p = b :: bs := by
        unfold utf8Bytes
        split_ifs <;> exact ⟨_, _, rfl⟩
      rw [henc, percentEncode, hb] at h
      exact absurd (List.cons.inj h).1.symm hx

theorem dropDot_encodeUnits {t : JsString} (h : dropDot (encodeUnits keptInPath text) = some t) :
    ∃ rest, dropDot text = some rest ∧ t = encodeUnits keptInPath rest := by
  cases text with
  | nil => cases h
  | cons c cs =>
    cases hc : keptInPath c with
    | false =>
      obtain ⟨p, rest, henc, hp, hcp⟩ := encodeUnits_other hc cs
      have hdot : p ≠ 0x2E := by
        rintro rfl
        have hdot : c = cu '.' := by
          rcases hcp with hcp | hcp
          · exact UInt16.toNat_inj.mp hcp.symm
          · omega
        rw [hdot] at hc
        exact absurd hc (by decide)
      rw [henc, dropDot_percentEncode hp hdot] at h
      cases h
    | true =>
      rw [encodeUnits_kept hc] at h
      unfold dropDot at h ⊢
      dsimp only at h ⊢
      by_cases hdot : c = cu '.'
      · rw [if_pos hdot] at h ⊢
        exact ⟨cs, rfl, (some.inj h).symm⟩
      · rw [if_neg hdot] at h ⊢
        split at h
        · rename_i x y more henc
          split_ifs at h with hpercent
          simp only [Bool.and_eq_true, Bool.or_eq_true, decide_eq_true_eq] at hpercent
          obtain ⟨⟨rfl, rfl⟩, hy⟩ := hpercent
          obtain ⟨cs', rfl, hmore⟩ := encodeUnits_eq_cons (by decide) henc
          obtain ⟨rest, rfl, hrest⟩ :=
            encodeUnits_eq_cons (by rcases hy with rfl | rfl <;> decide) hmore.symm
          refine ⟨rest, ?_, ?_⟩
          · rcases hy with rfl | rfl <;> rfl
          · rw [← hrest]
            exact (some.inj h).symm
        · cases h

theorem encodeUnits_eq_nil (h : encodeUnits keep text = []) : text = [] := by
  cases text with
  | nil => rfl
  | cons c cs =>
    cases hc : keep c with
    | true =>
      rw [encodeUnits_kept hc] at h
      cases h
    | false =>
      obtain ⟨p, rest, henc, -⟩ := encodeUnits_other hc cs
      obtain ⟨b, bs, hb⟩ : ∃ b bs, utf8Bytes p = b :: bs := by
        unfold utf8Bytes
        split_ifs <;> exact ⟨_, _, rfl⟩
      rw [henc, percentEncode, hb] at h
      cases h

/-- Encoding makes no segment a double dot. -/
theorem isDoubleDot_encodeUnits {s : JsString} (h : isDoubleDot s = false) :
    isDoubleDot (encodeUnits keptInPath s) = false := by
  rw [← Bool.not_eq_true] at h ⊢
  intro henc
  refine h ?_
  simp only [isDoubleDot, decide_eq_true_eq, bind_eq_some_iff] at henc ⊢
  obtain ⟨t, ht, ht'⟩ := henc
  obtain ⟨rest, hrest, rfl⟩ := dropDot_encodeUnits ht
  obtain ⟨last, hlast, hnil⟩ := dropDot_encodeUnits ht'
  rw [encodeUnits_eq_nil hnil.symm] at hlast
  exact ⟨rest, hrest, hlast⟩

variable {path : List JsString}

theorem isDoubleDot_pushAll {segs : List JsString} (hpath : ∀ s ∈ path, isDoubleDot s = false) :
    ∀ s ∈ pushAll path segs, isDoubleDot s = false := by
  induction segs generalizing path with
  | nil => exact hpath
  | cons s rest ih =>
    have hconcat : ∀ {p : List JsString} {t : JsString}, (∀ x ∈ p, isDoubleDot x = false) →
        isDoubleDot t = false → ∀ x ∈ p ++ [t], isDoubleDot x = false := by
      intro p t hp ht x hx
      rcases mem_append.mp hx with hx | hx
      · exact hp x hx
      · rw [mem_singleton.mp hx]
        exact ht
    have hdrop : ∀ x ∈ path.dropLast, isDoubleDot x = false :=
      fun x hx => hpath x (mem_of_mem_dropLast hx)
    cases rest with
    | nil =>
      unfold pushAll
      split_ifs with hs
      · exact hconcat hdrop rfl
      · exact hconcat hpath rfl
      · exact hconcat hpath (isDoubleDot_encodeUnits (Bool.not_eq_true _ ▸ hs))
    | cons t rest =>
      unfold pushAll
      split_ifs with hs
      · exact ih hdrop
      · exact ih hpath
      · exact ih (hconcat hpath (isDoubleDot_encodeUnits (Bool.not_eq_true _ ▸ hs)))

/-- Without a backslash the segments are what `split('/')` gives. -/
theorem segments_eq_split (h : cu '\\' ∉ text) : segments text = split text (js "/") := by
  induction text with
  | nil => rfl
  | cons c cs ih =>
    rw [mem_cons, not_or] at h
    have hcs := ih h.2
    have hslash : isSlash c = decide (c = cu '/') := by
      simp [isSlash, Ne.symm h.1]
    change _ = split (c :: cs) [cu '/']
    rw [segments, hslash, split_unit_cons, hcs]
    simp only [decide_eq_true_eq]
    rfl

/-- Without `#` a path ends at the first `?`. -/
theorem takeWhile_path (h : cu '#' ∉ text) :
    text.takeWhile (!isPathEnd ·) = text.takeWhile (· ≠ cu '?') := by
  induction text with
  | nil => rfl
  | cons c cs ih =>
    rw [mem_cons, not_or] at h
    have hc : (!isPathEnd c) = decide (c ≠ cu '?') := by simp [isPathEnd, Ne.symm h.1]
    rw [takeWhile_cons, takeWhile_cons, hc, ih h.2]

theorem readPath_fragment {url : Url} (h : cu '#' ∉ text) :
    (readPath url path text).fragment = none := by
  have hno : ∀ c ∈ text.dropWhile (!isPathEnd ·), (!decide (c = cu '#')) = true := by
    intro c hc
    have hmem := (dropWhile_sublist (l := text) (!isPathEnd ·)).subset hc
    rw [Bool.not_eq_true', decide_eq_false_iff_not]
    rintro rfl
    exact h hmem
  have hdrop := dropWhile_eq_nil_iff.mpr hno
  simp only [readPath, readTail, hdrop]
  rfl

end Aoox.Urls
