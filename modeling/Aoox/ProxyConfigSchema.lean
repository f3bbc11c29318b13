import Aoox.DatabaseSnapshot
import Aoox.VolumeNames

/-! # Files of dynamic configuration

An operator writes files for a proxy: middlewares, routers, services and transports by
name, in YAML.  `validateDynamicConfig` looks at the shape of a file and gives the names it
declares, of the first three sections only.  A file that passes declares exactly these names
(`validate_ok`), and what it declares under `serversTransports` is nowhere in the result.
-/
namespace Aoox.ProxyConfigs
open JsString Option
open Snapshots (sortNames sortNames_perm)

def MAX_CONFIG_BYTES : Nat := 64 * 1024

/-- The UTF-8 bytes of a unit on its own; a lone surrogate is written as U+FFFD. -/
def unitBytes (c : CodeUnit) : Nat := if c < 0x80 then 1 else if c < 0x800 then 2 else 3

/-- `Buffer.byteLength(text, 'utf8')`. -/
def byteLength : JsString → Nat
  | [] => 0
  | [c] => unitBytes c
  | c :: d :: cs =>
    if isLeadSurrogate c && isTrailSurrogate d then 4 + byteLength cs
    else unitBytes c + byteLength (d :: cs)

/-- `/^[a-z0-9][a-z0-9-]{0,62}$/` -/
def isElementName : JsString → Bool
  | [] => false
  | c :: cs => Volumes.isSlugUnit c && c != cu '-' && cs.length ≤ 62 && cs.all Volumes.isSlugUnit

/-- A parsed document: what `isMap` accepts with its entries, and anything else. -/
inductive Yaml where
  | map (entries : List (JsString × Yaml))
  | other

/-- An object has each key once. -/
def Yaml.object : Yaml → Option (List (JsString × Yaml))
  | map entries => some (Assoc.ofList entries)
  | other => none

/-- Why a document cannot be parsed, and at which line. -/
structure YamlError where
  reason : Option JsString
  line : Option Nat

/-- `HTTP_SECTIONS`. -/
inductive Section where
  | middlewares
  | routers
  | services
  | serversTransports
  deriving DecidableEq

def Section.all : List Section := [middlewares, routers, services, serversTransports]

def Section.key : Section → JsString
  | middlewares => js "middlewares"
  | routers => js "routers"
  | services => js "services"
  | serversTransports => js "serversTransports"

def Section.ofKey (key : JsString) : Option Section := all.find? fun s => s.key = key

/-- The names a file declares, sorted. -/
structure ParsedConfig where
  (middlewares routers services : List JsString)

def ParsedConfig.names (p : ParsedConfig) : Section → List JsString
  | .middlewares => p.middlewares
  | .routers => p.routers
  | .services => p.services
  | .serversTransports => []

/-- `REFUSED_TOP`. -/
def refusedTop : List (JsString × JsString) :=
  [(js "tls", js "TLS is managed by aoox: upload certificates under Settings > Certificates"),
    (js "tcp", js "TCP routing is not supported here"),
    (js "udp", js "UDP routing is not supported here")]

def topErrors (key : JsString) : List JsString :=
  if key = js "http" then []
  else
    match Assoc.get refusedTop key with
    | some reason => [js "\"" ++ key ++ js "\" is not allowed: " ++ reason]
    | none => [js "Unknown top-level key \"" ++ key ++ js "\"; only \"http\" is allowed"]

def elementErrors (s : Section) (name : JsString) (value : Yaml) : List JsString :=
  if !isElementName name then
    [js "Invalid name \"" ++ name ++ js "\" in http." ++ s.key ++
      js ": use lowercase letters, digits and \"-\" (max 63 characters)"]
  else if value.object.isNone then
    [js "\"http." ++ s.key ++ js "." ++ name ++ js "\" must be a mapping"]
  else []

def sectionErrors (key : JsString) (body : Yaml) : List JsString :=
  match Section.ofKey key with
  | none =>
    [js "Unknown key \"http." ++ key ++ js "\"; allowed: " ++ join (Section.all.map Section.key) (js ", ")]
  | some s =>
    match body.object with
    | none => [js "\"http." ++ key ++ js "\" must be a mapping of name to settings"]
    | some entries => entries.flatMap fun e => elementErrors s e.1 e.2

def entriesOf (http : List (JsString × Yaml)) (s : Section) : List (JsString × Yaml) :=
  ((Assoc.get http s.key).bind Yaml.object).getD []

def goodNames (http : List (JsString × Yaml)) (s : Section) : List JsString :=
  ((entriesOf http s).filter fun e => elementErrors s e.1 e.2 = []).map Prod.fst

/-- The part of the check behind `doc.http`. -/
def httpErrors (http : List (JsString × Yaml)) : List JsString :=
  http.flatMap fun e => sectionErrors e.1 e.2

def nothingDeclared (http : List (JsString × Yaml)) : Bool :=
  (goodNames http .middlewares).length + (goodNames http .routers).length +
    (goodNames http .services).length + (entriesOf http .serversTransports).length = 0

section Validation
variable (load : JsString → Except YamlError Yaml)

/-- The shape of a document, given its entries. -/
def validateDocument (doc : List (JsString × Yaml)) : Except (List JsString) ParsedConfig :=
  let errors := doc.flatMap fun e => topErrors e.1
  match Assoc.get doc (js "http") with
  | none => .error (errors ++ [js "Missing the \"http\" section"])
  | some value =>
    match value.object with
    | none => .error (errors ++ [js "\"http\" must be a mapping"])
    | some http =>
      let errors := errors ++ httpErrors http
      let errors := if errors = [] && nothingDeclared http then
          [js "The file declares nothing under \"http\""] else errors
      if errors = [] then
        -- the names of the transports are left out
        .ok ⟨sortNames (goodNames http .middlewares), sortNames (goodNames http .routers),
          sortNames (goodNames http .services)⟩
      else .error errors

def validateDynamicConfig (content : JsString) : Except (List JsString) ParsedConfig :=
  if MAX_CONFIG_BYTES < byteLength content then
    .error [js "The file is larger than " ++ js (toString (MAX_CONFIG_BYTES / 1024)) ++ js " KB"]
  else
    match load content with
    | .error e =>
      .error [js "Invalid YAML: " ++ e.reason.getD (js "could not be parsed") ++
        (e.line.elim [] fun line => js " (line " ++ js (toString (line + 1)) ++ js ")")]
    | .ok value =>
      match value.object with
      | none => .error [js "The document must be a YAML mapping with an \"http\" section"]
      | some doc => validateDocument doc

/-- The names a proxy reads from a file, of one kind. -/
def declared (content : JsString) (s : Section) : List JsString :=
  match load content with
  | .error _ => []
  | .ok value =>
    match ((value.object.bind fun doc => Assoc.get doc (js "http")).bind Yaml.object) with
    | none => []
    | some http => (entriesOf http s).map Prod.fst

variable {load} {content : JsString} {parsed : ParsedConfig}

theorem nodup_ofList (entries : List (JsString × Yaml)) : ((Assoc.ofList entries).map Prod.fst).Nodup :=
  Assoc.nodup_setAll (m := []) List.nodup_nil entries

/-- Objects have each key once, so a file declares no name twice. -/
theorem nodup_declared (content : JsString) (s : Section) : (declared load content s).Nodup := by
  unfold declared
  split
  · exact List.nodup_nil
  · split
    · exact List.nodup_nil
    · rename_i http _
      unfold entriesOf
      cases hbody : (Assoc.get http s.key).bind Yaml.object with
      | none => exact List.nodup_nil
      | some entries =>
        obtain ⟨body, -, hobject⟩ := bind_eq_some_iff.mp hbody
        cases body with
        | other => cases hobject
        | map raw =>
          cases hobject
          exact nodup_ofList raw

@[simp] theorem ofKey_key (s : Section) : Section.ofKey s.key = some s := by
  cases s <;> decide

theorem goodNames_eq {http : List (JsString × Yaml)} (h : httpErrors http = []) (s : Section) :
    goodNames http s = (entriesOf http s).map Prod.fst := by
  unfold goodNames
  congr 1
  rw [List.filter_eq_self]
  intro e he
  unfold entriesOf at he
  cases hbody : (Assoc.get http s.key).bind Yaml.object with
  | none =>
    rw [hbody] at he
    cases he
  | some entries =>
    rw [hbody] at he
    obtain ⟨body, hget, hobject⟩ := bind_eq_some_iff.mp hbody
    have hsection := List.flatMap_eq_nil_iff.mp h (s.key, body) (Assoc.mem_of_get hget)
    simp only [sectionErrors, ofKey_key, hobject] at hsection
    exact decide_eq_true (List.flatMap_eq_nil_iff.mp hsection e he)

/-- **A file that passes declares the names of the result**, and what else it declares is under
`serversTransports`. -/
theorem validate_ok (h : validateDynamicConfig load content = .ok parsed) (s : Section)
    (hs : s ≠ .serversTransports) : (parsed.names s).Perm (declared load content s) := by
  unfold validateDynamicConfig at h
  split at h
  · cases h
  · split at h
    · cases h
    · rename_i value hload
      split at h
      · cases h
      · rename_i doc hdoc
        unfold validateDocument at h
        split at h
        · cases h
        · rename_i http₀ hget
          split at h
          · cases h
          · rename_i http hhttp
            dsimp only at h
            split at h
            · simp at h
            · split at h
              · rename_i hnone
                have herrors : httpErrors http = [] := (List.append_eq_nil_iff.mp hnone).2
                have hdeclared : declared load content s = (entriesOf http s).map Prod.fst := by
                  simp only [declared, hload, hdoc, hget, hhttp, bind_some]
                cases h
                rw [hdeclared, ← goodNames_eq herrors]
                cases s with
                | serversTransports => exact absurd rfl hs
                | middlewares | routers | services => exact sortNames_perm _
              · cases h

end Validation

/-- `x@file` for every name. -/
def middlewareRefs (names : List JsString) : List JsString := names.map fun n => n ++ js "@file"

theorem mem_middlewareRefs {names : List JsString} {name : JsString} :
    name ++ js "@file" ∈ middlewareRefs names ↔ name ∈ names := by
  unfold middlewareRefs
  rw [List.mem_map]
  constructor
  · rintro ⟨other, hother, heq⟩
    exact List.append_cancel_right heq ▸ hother
  · intro h
    exact ⟨name, h, rfl⟩

end Aoox.ProxyConfigs
