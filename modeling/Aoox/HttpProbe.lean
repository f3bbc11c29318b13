import Aoox.FieldChecks
import Aoox.Urls

/-! # The probe of an HTTP monitor

A monitor requests a path that the user chose on a base that the application's own host gives, and
follows redirects that the application's server answers with.  The path that passes the check cannot
leave the service of the base, and no segment of it climbs (`parse_monitored`).  Of the redirects,
`sameService` lets through those to the same host and to the same text of the port, which is empty
for the default port of either scheme and the same for every other port.

So the scheme may change where the port's text does not.  A service on the default port of `http` is
upgraded, as it should be; from `https` the probe goes down to `http`, and from `http` on another
port it goes to `https` on that port.  A run leaves the service exactly when the original is not
`http` on its default port and a redirect that is followed changes the scheme
(`probe_confined_iff`).
-/
namespace Aoox.HttpProbe
open JsString FieldChecks Urls List Option Bool

/-! ## The probe -/

def maxRedirects : Nat := 3

def redirectCodes : List Nat := [301, 302, 303, 307, 308]

/-- What is read of a value that was thrown. -/
structure Thrown where
  (name message causeCode causeMessage : Option JsString)

def describeProbeError (e : Thrown) (timeoutSeconds : Nat) : JsString :=
  if e.name = some (js "TimeoutError") ∨ e.name = some (js "AbortError") then
    js "timeout after " ++ js (toString timeoutSeconds) ++ js "s"
  else
    match e.causeCode, e.causeMessage, e.message with
    | some code, _, _ => code
    | none, some text, _ => text.take 120
    | none, none, some text => text.take 120
    | none, none, none => js "request failed"

/-- What one request comes to, and how long after the start of the probe. -/
inductive Answer where
  | thrown (e : Thrown) (elapsed : Nat)
  | response (status : Nat) (location : Option JsString) (elapsed : Nat)
      (body : Option (Thrown × Nat))

structure ProbeResult where
  statusCode : Option Nat
  latencyMs : Nat
  error : Option JsString

def sameService (url : Url) (to' : Address) : Bool :=
  match to' with
  | .foreign _ => false
  | .web next => next.hostname = url.hostname && next.port = url.port

/-- The result when no redirect is followed.  The body of a redirect is not read. -/
def resultOf (timeoutSeconds : Nat) : Answer → ProbeResult
  | .thrown e elapsed => ⟨none, elapsed, some (describeProbeError e timeoutSeconds)⟩
  | .response status _ elapsed body =>
    match body with
    | some (e, later) =>
      if redirectCodes.contains status then ⟨some status, elapsed, none⟩
      else ⟨none, later, some (describeProbeError e timeoutSeconds)⟩
    | none => ⟨some status, elapsed, none⟩

variable (hosts : JsString → Option JsString)

/-- The redirect of an answer that is followed from `current`. -/
def followed (url : Url) (answer : Answer) (current : Url) : Option Url :=
  match answer with
  | .thrown _ _ => none
  | .response status location _ _ =>
    if redirectCodes.contains status then
      match location with
      | none => none
      | some text =>
        if text = [] then none
        else
          match parse hosts (some current) text with
          | some (.web next) => if sameService url (.web next) then some next else none
          | _ => none
    else none

/-- The loop, with the number of redirects that are left: the URLs that are requested, and the
result. -/
def hops (url : Url) (timeoutSeconds : Nat) (answers : Nat → Answer) :
    Nat → Url → List Url × ProbeResult
  | 0, current => ([current], resultOf timeoutSeconds (answers maxRedirects))
  | left + 1, current =>
    let answer := answers (maxRedirects - (left + 1))
    match followed hosts url answer current with
    | some next =>
      let r := hops url timeoutSeconds answers left next
      (current :: r.1, r.2)
    | none => ([current], resultOf timeoutSeconds answer)

def probe (url : Url) (timeoutSeconds : Nat) (answers : Nat → Answer) : List Url × ProbeResult :=
  hops hosts url timeoutSeconds answers maxRedirects url

/-! ## Where the probe goes -/

/-- The original goes to the default port of `http`. -/
def PlainDefault (url : Url) : Prop := url.protocol = .http ∧ url.port = none

/-- On the original host, and on its scheme and port or on the upgrade of the default ports. -/
def Confined (url u : Url) : Prop :=
  u.hostname = url.hostname ∧
    (u.protocol = url.protocol ∧ u.effectivePort = url.effectivePort ∨
      PlainDefault url ∧ u.protocol = .https ∧ u.port = none)

/-- The answer is a redirect that is followed and keeps the scheme. -/
def Stays (url : Url) (answer : Answer) : Prop :=
  ∃ u, followed hosts url answer url = some u ∧ u.protocol = url.protocol

/-- The answer is a redirect to the same host and text of the port under the other scheme. -/
def Switches (url : Url) (answer : Answer) : Prop :=
  ∃ u, followed hosts url answer url = some u ∧ u.protocol ≠ url.protocol

/-- After redirects that keep the scheme there is one that changes it. -/
def SwitchesWithin (url : Url) (answers : Nat → Answer) (start left : Nat) : Prop :=
  ∃ k < left, (∀ j < k, Stays hosts url (answers (start + j))) ∧
    Switches hosts url (answers (start + k))

section Followed
variable {hosts} {url current next : Url} {answer : Answer}

theorem followed_some (h : followed hosts url answer current = some next) :
    next.hostname = url.hostname ∧ next.port = url.port := by
  unfold followed at h
  split at h
  · cases h
  · split_ifs at h
    split at h
    · cases h
    · split_ifs at h
      split at h
      · split_ifs at h with hsame
        obtain rfl := some.inj h
        simpa [sameService] using hsame
      · cases h

theorem followed_service (hcurrent : current.service = url.service) :
    (followed hosts url answer current).map Url.service =
      (followed hosts url answer url).map Url.service := by
  cases answer with
  | thrown e elapsed => rfl
  | response status location elapsed body =>
    unfold followed
    dsimp only
    split_ifs
    · cases location with
      | none => rfl
      | some text =>
        dsimp only
        split_ifs
        · rfl
        · have hgo : ∀ base : Url, Option.map Url.service (match parse hosts (some base) text with
              | some (.web next) => if sameService url (.web next) then some next else none
              | _ => none) = (serviceOf (parse hosts (some base) text)).filter fun s =>
                s.hostname = url.hostname && s.port = url.port := by
            intro base
            rcases parse hosts (some base) text with _ | ⟨u⟩ | ⟨scheme⟩
            · rfl
            · by_cases hsame : sameService url (.web u) = true
              · simp only [hsame, if_true, serviceOf, filter_some]
                exact (if_pos hsame).symm
              · simp only [hsame, serviceOf, filter_some]
                exact (if_neg hsame).symm
            · rfl
          rw [hgo, hgo, resolve_service hosts hcurrent]
    · rfl

end Followed

section Hops
variable {hosts} {url : Url} {timeoutSeconds : Nat} {answers : Nat → Answer}

theorem mem_hops (left : Nat) (current : Url) :
    current ∈ (hops hosts url timeoutSeconds answers left current).1 := by
  cases left with
  | zero => exact mem_singleton_self current
  | succ left =>
    unfold hops
    dsimp only
    split
    · exact mem_cons_self
    · exact mem_singleton_self current

/-- A run makes one request more than the redirects it may follow, at most. -/
theorem length_hops (left : Nat) (current : Url) :
    (hops hosts url timeoutSeconds answers left current).1.length ≤ 1 + left := by
  induction left generalizing current with
  | zero => exact Nat.le_refl 1
  | succ left ih =>
    unfold hops
    dsimp only
    split
    · rename_i next _
      have := ih next
      rw [length_cons]
      omega
    · rw [length_singleton]
      omega

variable {left : Nat} {current : Url}

/-- Every request goes to the original host and has the original text of the port. -/
theorem host_hops (hhost : current.hostname = url.hostname) (hport : current.port = url.port) :
    ∀ u ∈ (hops hosts url timeoutSeconds answers left current).1,
      u.hostname = url.hostname ∧ u.port = url.port := by
  induction left generalizing current with
  | zero =>
    intro u hu
    rw [mem_singleton.mp hu]
    exact ⟨hhost, hport⟩
  | succ left ih =>
    intro u hu
    unfold hops at hu
    dsimp only at hu
    split at hu
    · rename_i next hnext
      obtain ⟨hhost', hport'⟩ := followed_some hnext
      rcases mem_cons.mp hu with rfl | hu
      · exact ⟨hhost, hport⟩
      · exact ih hhost' hport' u hu
    · rw [mem_singleton.mp hu]
      exact ⟨hhost, hport⟩

/-- Whether the first redirect changes the scheme, and if it does not, whether a later one does. -/
theorem switchesWithin_succ {start : Nat} : SwitchesWithin hosts url answers start (left + 1) ↔
    Switches hosts url (answers start) ∨
      Stays hosts url (answers start) ∧ SwitchesWithin hosts url answers (start + 1) left := by
  have hshift : ∀ j, start + 1 + j = start + (j + 1) := fun j => by omega
  constructor
  · rintro ⟨k, hk, hstays, hswitches⟩
    cases k with
    | zero => exact .inl hswitches
    | succ k =>
      refine .inr ⟨hstays 0 (Nat.succ_pos k), k, Nat.lt_of_succ_lt_succ hk, fun j hj => ?_, ?_⟩
      · rw [hshift]
        exact hstays (j + 1) (Nat.succ_lt_succ hj)
      · rw [hshift]
        exact hswitches
  · rintro (hswitches | ⟨hfirst, k, hk, hstays, hswitches⟩)
    · exact ⟨0, Nat.succ_pos left, fun j hj => absurd hj (Nat.not_lt_zero j), hswitches⟩
    · refine ⟨k + 1, Nat.succ_lt_succ hk, fun j hj => ?_, ?_⟩
      · cases j with
        | zero => exact hfirst
        | succ j =>
          rw [← hshift]
          exact hstays j (Nat.lt_of_succ_lt_succ hj)
      · rw [← hshift]
        exact hswitches

/-- **When the scheme changes.**  The induction is on the redirects that are left: up to the first
one that changes the scheme, the current URL is of the original service. -/
theorem protocol_hops_iff (hleft : left ≤ maxRedirects) (hcurrent : current.service = url.service) :
    (∀ u ∈ (hops hosts url timeoutSeconds answers left current).1, u.protocol = url.protocol) ↔
      ¬ SwitchesWithin hosts url answers (maxRedirects - left) left := by
  have hprotocol : current.protocol = url.protocol := congrArg Service.protocol hcurrent
  induction left generalizing current with
  | zero =>
    refine ⟨fun _ h => ?_, fun _ u hu => ?_⟩
    · obtain ⟨k, hk, -⟩ := h
      exact Nat.not_lt_zero k hk
    · rw [mem_singleton.mp hu]
      exact hprotocol
  | succ left ih =>
    have hnumber : maxRedirects - (left + 1) + 1 = maxRedirects - left := by omega
    rw [switchesWithin_succ, hnumber]
    have hmap : (followed hosts url (answers (maxRedirects - (left + 1))) current).map Url.service =
        (followed hosts url (answers (maxRedirects - (left + 1))) url).map Url.service :=
      followed_service hcurrent
    unfold hops
    dsimp only
    cases hnext : followed hosts url (answers (maxRedirects - (left + 1))) current with
    | none =>
      rw [hnext, map_none, eq_comm, map_eq_none_iff] at hmap
      refine ⟨fun _ h => ?_, fun _ u hu => ?_⟩
      · rcases h with ⟨u, hu, -⟩ | ⟨⟨u, hu, -⟩, -⟩
        · rw [hmap] at hu
          cases hu
        · rw [hmap] at hu
          cases hu
      · rw [mem_singleton.mp hu]
        exact hprotocol
    | some next =>
      rw [hnext, map_some, eq_comm, map_eq_some_iff] at hmap
      obtain ⟨u, hu, hservice⟩ := hmap
      have hsame : u.protocol = next.protocol := congrArg Service.protocol hservice
      dsimp only
      by_cases hkept : next.protocol = url.protocol
      · have hnot : ¬ Switches hosts url (answers (maxRedirects - (left + 1))) := by
          rintro ⟨u', hu', hne⟩
          rw [hu] at hu'
          obtain rfl := some.inj hu'
          exact hne (hsame.trans hkept)
        have hstays : Stays hosts url (answers (maxRedirects - (left + 1))) :=
          ⟨u, hu, hsame.trans hkept⟩
        obtain ⟨hhost, hport⟩ := followed_some hnext
        have hnextService : next.service = url.service := by
          simp only [Url.service, hkept, hhost, hport]
        have hrest := ih (Nat.le_of_succ_le hleft) hnextService hkept
        refine forall_mem_cons.trans ((and_congr_right fun _ => hrest).trans ?_)
        simp [hprotocol, hnot, hstays]
      · have hmem : next ∈ current :: (hops hosts url timeoutSeconds answers left next).1 :=
          mem_cons_of_mem _ (mem_hops left next)
        refine ⟨fun h => absurd (h next hmem) hkept, fun h => ?_⟩
        exact absurd (.inl ⟨u, hu, fun hu' => hkept (hsame.symm.trans hu')⟩) h

end Hops

theorem confined_iff {url u : Url} (hhost : u.hostname = url.hostname) (hport : u.port = url.port) :
    Confined url u ↔ PlainDefault url ∨ u.protocol = url.protocol := by
  constructor
  · rintro ⟨-, ⟨hprotocol, -⟩ | ⟨hplain, -⟩⟩
    · exact .inr hprotocol
    · exact .inl hplain
  · have hsame : u.protocol = url.protocol → Confined url u := fun hprotocol =>
      ⟨hhost, .inl ⟨hprotocol, by rw [Url.effectivePort, Url.effectivePort, hport, hprotocol]⟩⟩
    rintro (hplain | hprotocol)
    · cases hu : u.protocol with
      | http => exact hsame (hu.trans hplain.1.symm)
      | https => exact ⟨hhost, .inr ⟨hplain, hu, hport.trans hplain.2⟩⟩
    · exact hsame hprotocol

/-! ## The path of a monitor -/

variable {a : JsString}

section Decoding

theorem hexValue_slash : hexValue (cu '/') = none := by decide

variable {v : Nat} {b : JsString}

theorem percentByte_append
    (h : percentByte (a ++ cu '/' :: b) = some v) : percentByte a = some v ∧ 3 ≤ a.length := by
  match a with
  | [] =>
    rcases b with _ | ⟨x, _ | ⟨y, b⟩⟩ <;> simp [percentByte, cu] at h
  | [p] =>
    cases b with
    | nil => simp [percentByte] at h
    | cons x b => simp [percentByte, hexValue_slash] at h
  | [p, x] => simp [percentByte, hexValue_slash] at h
  | p :: x :: y :: a => exact ⟨h, by simp⟩

variable {n p : Nat}

theorem continuation_append (h : continuation n p (a ++ cu '/' :: b) = some v) :
    continuation n p a = some v ∧ 3 * n ≤ a.length := by
  induction n generalizing p a with
  | zero => exact ⟨h, by omega⟩
  | succ n ih =>
    simp only [continuation, bind_eq_bind, bind_eq_some_iff] at h ⊢
    obtain ⟨byte, hbyte, hrest⟩ := h
    obtain ⟨hbyte', hlen⟩ := percentByte_append hbyte
    rw [drop_append_of_le_length hlen] at hrest
    split_ifs at hrest with hrange
    obtain ⟨hcont, hmore⟩ := ih hrest
    rw [length_drop] at hmore
    refine ⟨⟨byte, hbyte', ?_⟩, by omega⟩
    rw [if_pos hrange]
    exact hcont

theorem leadByte_pos {b bits : Nat} (h : leadByte b = some (n, bits)) : 1 ≤ n := by
  unfold leadByte at h
  split_ifs at h <;> simp at h <;> omega

/-- No sequence goes on behind a slash. -/
theorem decodePoint_append (h : decodePoint (a ++ cu '/' :: b) = some (p, n)) :
    decodePoint a = some (p, n) ∧ n ≤ a.length := by
  simp only [decodePoint, bind_eq_bind, bind_eq_some_iff] at h ⊢
  obtain ⟨byte, hbyte, ⟨len, bits⟩, hlead, q, hcont, hrest⟩ := h
  obtain ⟨hbyte', hlen⟩ := percentByte_append hbyte
  rw [drop_append_of_le_length hlen] at hcont
  obtain ⟨hcont', hmore⟩ := continuation_append hcont
  have hpos := leadByte_pos hlead
  rw [length_drop] at hmore
  refine ⟨⟨byte, hbyte', (len, bits), hlead, q, hcont', hrest⟩, ?_⟩
  split_ifs at hrest
  obtain ⟨rfl, rfl⟩ := Prod.mk.inj (some.inj hrest)
  omega

theorem decodeGo_append {k : Nat} {d : JsString} (hk : k ≤ a.length)
    (h : decodeGo k (a ++ cu '/' :: b) = some d) :
    ∃ da db, decodeGo k a = some da ∧ decodeURIComponent b = some db ∧ d = da ++ cu '/' :: db := by
  induction a generalizing k d with
  | nil =>
    obtain rfl := Nat.le_zero.mp hk
    rw [nil_append, decodeGo, if_neg (by decide), map_eq_some_iff] at h
    obtain ⟨db, hdb, rfl⟩ := h
    exact ⟨[], db, rfl, hdb, rfl⟩
  | cons c cs ih =>
    cases k with
    | succ k => exact ih (Nat.le_of_succ_le_succ hk) h
    | zero =>
      rw [cons_append, decodeGo] at h
      rw [decodeGo]
      split_ifs at h ⊢ with hc
      · cases hpoint : decodePoint (c :: (cs ++ cu '/' :: b)) with
        | none =>
          rw [hpoint] at h
          cases h
        | some r =>
          obtain ⟨p, n⟩ := r
          obtain ⟨hpoint', hn⟩ := decodePoint_append (a := c :: cs) hpoint
          rw [hpoint] at h
          rw [hpoint']
          obtain ⟨d', hd', rfl⟩ := map_eq_some_iff.mp h
          rw [length_cons] at hn
          obtain ⟨da, db, hda, hdb, rfl⟩ := ih (by omega) hd'
          exact ⟨pointUnits p ++ da, db, by simp only [hda, map_some], hdb, by simp⟩
      · obtain ⟨d', hd', rfl⟩ := map_eq_some_iff.mp h
        obtain ⟨da, db, hda, hdb, rfl⟩ := ih (Nat.zero_le _) hd'
        exact ⟨c :: da, db, by rw [hda, map_some], hdb, rfl⟩

theorem mem_split_decoded {text d s : JsString} (h : decodeURIComponent text = some d)
    (hs : s ∈ split text (js "/")) :
    ∃ t, decodeURIComponent s = some t ∧ split t (js "/") ⊆ split d (js "/") := by
  induction hn : text.length using Nat.strong_induction_on generalizing text d with
  | _ n ih =>
    by_cases hslash : cu '/' ∈ text
    · obtain ⟨a, b, rfl, ha⟩ := eq_append_cons_of_mem hslash
      obtain ⟨da, db, hda, hdb, rfl⟩ := decodeGo_append (Nat.zero_le _) h
      have hd : split (da ++ cu '/' :: db) (js "/") = split da (js "/") ++ split db (js "/") :=
        split_append_unit (cu '/') da db
      have htext : split (a ++ cu '/' :: b) (js "/") = [a] ++ split b (js "/") := by
        rw [← split_of_not_mem ha]
        exact split_append_unit (cu '/') a b
      rw [htext, singleton_append, mem_cons] at hs
      rw [hd]
      rcases hs with rfl | hs
      · exact ⟨da, hda, subset_append_left _ _⟩
      · obtain ⟨t, ht, hsub⟩ := ih b.length (by simp [← hn]; omega) hdb hs rfl
        exact ⟨t, ht, List.Subset.trans hsub (subset_append_right _ _)⟩
    · have hone : split text (js "/") = [text] := split_of_not_mem hslash
      rw [hone, mem_singleton] at hs
      subst hs
      exact ⟨d, h, fun _ hx => hx⟩

theorem dropDot_some {s rest : JsString} (h : dropDot s = some rest) :
    s = cu '.' :: rest ∨ s = js "%2e" ++ rest ∨ s = js "%2E" ++ rest := by
  unfold dropDot at h
  split at h
  · cases h
  · rename_i c cs
    split_ifs at h with hdot
    · rw [hdot, some.inj h]
      exact .inl rfl
    · split at h
      · split_ifs at h with hpercent
        simp only [and_eq_true, or_eq_true, decide_eq_true_eq] at hpercent
        obtain ⟨⟨rfl, rfl⟩, rfl | rfl⟩ := hpercent
        · exact .inr (.inl (by rw [some.inj h]; rfl))
        · exact .inr (.inr (by rw [some.inj h]; rfl))
      · cases h

theorem decode_doubleDot {s : JsString} (h : isDoubleDot s = true) :
    decodeURIComponent s = some (js "..") := by
  simp only [isDoubleDot, decide_eq_true_eq, bind_eq_some_iff] at h
  obtain ⟨rest, hrest, hlast⟩ := h
  rcases dropDot_some hlast with rfl | rfl | rfl <;>
    rcases dropDot_some hrest with rfl | rfl | rfl <;> decide

end Decoding

/-- What the check of a path leaves. -/
structure Monitored (path : JsString) : Prop where
  cons : ∃ rest, path = cu '/' :: rest ∧ rest.head? ≠ some (cu '/')
  clean : ∀ c ∈ path, isRefusedUnit c = false
  level : ∀ s ∈ split (path.takeWhile (· ≠ cu '?')) (js "/"), isDoubleDot s = false

variable {path : JsString}

theorem monitored_of_valid (h : validateMonitorPath path = none) : Monitored path := by
  unfold validateMonitorPath at h
  split_ifs at h with hempty hlong hslash hdouble hrefused
  have hclean : ∀ c ∈ path, isRefusedUnit c = false := by
    simpa using hrefused
  have hstart : js "/" <+: path := by simpa [startsWith] using hslash
  obtain ⟨rest, rfl⟩ := hstart
  refine ⟨⟨rest, rfl, fun hrest => hdouble ?_⟩, hclean, fun s hs => ?_⟩
  · obtain ⟨rest', rfl⟩ := List.head?_eq_some_iff.mp hrest
    exact decide_eq_true ⟨rest', rfl⟩
  · have hhead := head_split_unit (cu '?') (js "/" ++ rest)
    have hquery : js "?" = [cu '?'] := rfl
    rw [hquery, hhead, getD_some] at h
    cases hdecoded : decodeURIComponent ((js "/" ++ rest).takeWhile (· ≠ cu '?')) with
    | none =>
      rw [hdecoded] at h
      cases h
    | some d =>
      rw [hdecoded] at h
      dsimp only at h
      split_ifs at h with hup
      rw [← not_eq_true]
      intro hdouble'
      obtain ⟨t, ht, hsub⟩ := mem_split_decoded hdecoded hs
      rw [decode_doubleDot hdouble'] at ht
      obtain rfl := some.inj ht
      refine hup (or_eq_true_iff.mpr (.inl ?_))
      exact contains_iff_mem.mpr (hsub (by decide))

variable {c : CodeUnit}

theorem Monitored.above (h : Monitored path) (hc : c ∈ path) : 0x20 < c := by
  have hclean := h.clean c hc
  simp only [isRefusedUnit, or_eq_false_iff, decide_eq_false_iff_not] at hclean
  exact UInt16.not_le.mp hclean.1.1.1

theorem Monitored.not_mem (h : Monitored path) (hc : isRefusedUnit c = true) : c ∉ path := by
  intro hmem
  rw [h.clean c hmem] at hc
  cases hc

/-- **The path of a monitor.**  Behind a base it is read as a path of the base, and so it is when it
is resolved against the base. -/
theorem parse_monitored (p : Protocol) (ha : IsAuthority a)
    (hpath : validateMonitorPath path = none) {b : Url}
    (hb : parse hosts none (p.text ++ js "://" ++ a) = some (.web b)) :
    ∃ url, parse hosts none (p.text ++ js "://" ++ a ++ path) = some (.web url) ∧
      parse hosts (some b) path = some (.web url) ∧ url.service = b.service ∧
      url.fragment = none ∧ (∀ s ∈ url.path, isDoubleDot s = false) ∧
      ∀ s ∈ segments (path.takeWhile (!isPathEnd ·)), isDoubleDot s = false := by
  have h := monitored_of_valid hpath
  obtain ⟨rest, rfl, hrest⟩ := h.cons
  have habove : ∀ c ∈ cu '/' :: rest, 0x20 < c := fun c => h.above
  have hhash : cu '#' ∉ rest := fun hmem => h.not_mem (by decide) (mem_cons_of_mem _ hmem)
  have hback : cu '\\' ∉ rest := fun hmem => h.not_mem (by decide) (mem_cons_of_mem _ hmem)
  have hslash : ∀ c, rest.head? = some c → isSlash c = false := by
    intro c hc
    have hmem : c ∈ rest := List.mem_of_mem_head? hc
    simp only [isSlash, or_eq_false_iff, decide_eq_false_iff_not]
    exact ⟨fun hcc => hrest (hcc ▸ hc), fun hcc => hback (hcc ▸ hmem)⟩
  have hhash' : cu '#' ∉ cu '/' :: rest := h.not_mem (by decide)
  have hback' : cu '\\' ∉ (cu '/' :: rest).takeWhile (!isPathEnd ·) :=
    fun hmem => h.not_mem (by decide) ((takeWhile_sublist _).subset hmem)
  refine ⟨readPath b [] rest, parse_append_path hosts p ha habove hb,
    resolve_path hosts habove hslash, rfl, readPath_fragment hhash,
    isDoubleDot_pushAll (by simp), ?_⟩
  rw [segments_eq_split hback', takeWhile_path hhash']
  exact h.level

/-- **Where a probe goes.**  A path that passes the check stays within the service of its base, and
climbs nowhere.  A probe makes at most one request more than the redirects it may follow, each to
the original host; it leaves the service exactly when the original is not `http` on its default port
and, after redirects that keep the scheme, one to the same host and text of the port changes it. -/
theorem probe_confined_iff (hosts : JsString → Option JsString) :
    (∀ (p : Protocol) (a path : JsString) (b : Url), IsAuthority a →
      validateMonitorPath path = none →
      parse hosts none (p.text ++ js "://" ++ a) = some (.web b) →
      ∃ url, parse hosts none (p.text ++ js "://" ++ a ++ path) = some (.web url) ∧
        parse hosts (some b) path = some (.web url) ∧ url.service = b.service ∧
        url.fragment = none ∧ (∀ s ∈ url.path, isDoubleDot s = false) ∧
        ∀ s ∈ segments (path.takeWhile (!isPathEnd ·)), isDoubleDot s = false) ∧
    ∀ (url : Url) (timeoutSeconds : Nat) (answers : Nat → Answer),
      (probe hosts url timeoutSeconds answers).1.length ≤ 1 + maxRedirects ∧
      (∀ u ∈ (probe hosts url timeoutSeconds answers).1, u.hostname = url.hostname) ∧
      ((∀ u ∈ (probe hosts url timeoutSeconds answers).1, Confined url u) ↔
        PlainDefault url ∨ ¬ SwitchesWithin hosts url answers 0 maxRedirects) := by
  refine ⟨fun p a path b ha hpath hb => parse_monitored hosts p ha hpath hb,
    fun url timeoutSeconds answers => ⟨length_hops maxRedirects url, fun u hu => ?_, ?_⟩⟩
  · exact (host_hops rfl rfl u hu).1
  · have hiff : (∀ u ∈ (probe hosts url timeoutSeconds answers).1, u.protocol = url.protocol) ↔
        ¬ SwitchesWithin hosts url answers (maxRedirects - maxRedirects) maxRedirects :=
      protocol_hops_iff (Nat.le_refl maxRedirects) rfl
    rw [Nat.sub_self] at hiff
    rw [← hiff]
    have hconfined : ∀ u ∈ (probe hosts url timeoutSeconds answers).1,
        (Confined url u ↔ PlainDefault url ∨ u.protocol = url.protocol) := by
      intro u hu
      obtain ⟨hhost, hport⟩ := host_hops rfl rfl u hu
      exact confined_iff hhost hport
    constructor
    · intro h
      by_cases hplain : PlainDefault url
      · exact .inl hplain
      · exact .inr fun u hu => ((hconfined u hu).mp (h u hu)).resolve_left hplain
    · rintro (hplain | hsame) u hu
      · exact (hconfined u hu).mpr (.inl hplain)
      · exact (hconfined u hu).mpr (.inr (hsame u hu))

/-! The host parser, on names of lower-case letters and dots. -/

def lowered (name : JsString) : Option JsString := some (toLowerCase name)

theorem none_ne_port (protocol : Protocol) : none ≠ some protocol.defaultPort :=
  (Option.some_ne_none _).symm

/-- `app.test` on the default port. -/
def appOn (protocol : Protocol) : Url :=
  ⟨protocol, [], js "app.test", none, [[]], none, none, none_ne_port protocol⟩

theorem ne_defaultPort (protocol : Protocol) : some 8080 ≠ some protocol.defaultPort := by
  cases protocol <;> decide

/-- `app.test` on port 8080. -/
def appBeside (protocol : Protocol) : Url :=
  ⟨protocol, [], js "app.test", some 8080, [[]], none, none, ne_defaultPort protocol⟩

def redirectTo (location : JsString) (_ : Nat) : Answer := .response 302 (some location) 5 none

theorem probe_confined_sample :
    ∃ url, parse lowered none (js "https://app.test:8080/health?full=1") = some (.web url) ∧
      url.service = ⟨.https, js "app.test", some 8080⟩ ∧ url.fragment = none ∧
      ∀ s ∈ url.path, isDoubleDot s = false := by
  have hunits : (js "app.test:8080").all (fun c => 0x20 < c && !isAuthorityEnd c) = true := by
    decide
  have ha : IsAuthority (js "app.test:8080") := by
    intro c hc
    simpa using List.all_eq_true.mp hunits c hc
  obtain ⟨url, hurl, -, hservice, hfragment, hdots, -⟩ :=
    (probe_confined_iff lowered).1 .https (js "app.test:8080") (js "/health?full=1")
      (appBeside .https) ha (by decide) (by decide)
  exact ⟨url, hurl, hservice, hfragment, hdots⟩

/-- From `https` a probe goes down to `http`, and from `http` on port 8080 to `https` on it. -/
theorem scheme_switched :
    ¬ (∀ u ∈ (probe lowered (appOn .https) 10 (redirectTo (js "http://app.test/"))).1,
      Confined (appOn .https) u) ∧
    ¬ (∀ u ∈ (probe lowered (appBeside .http) 10 (redirectTo (js "https://app.test:8080/"))).1,
      Confined (appBeside .http) u) := by
  refine ⟨fun h => ?_, fun h => ?_⟩
  · have hmem : appOn .http ∈
        (probe lowered (appOn .https) 10 (redirectTo (js "http://app.test/"))).1 := by
      decide
    obtain ⟨-, ⟨hprotocol, -⟩ | ⟨⟨hplain, -⟩, -⟩⟩ := h _ hmem
    · cases hprotocol
    · cases hplain
  · have hmem : appBeside .https ∈
        (probe lowered (appBeside .http) 10 (redirectTo (js "https://app.test:8080/"))).1 := by
      decide
    obtain ⟨-, ⟨hprotocol, -⟩ | ⟨⟨-, hport⟩, -⟩⟩ := h _ hmem
    · cases hprotocol
    · cases hport

end Aoox.HttpProbe
