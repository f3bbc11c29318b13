import Aoox.JsString
import Aoox.Grouping

/-! # The proxy labels of a container

Domains become Traefik routers through labels on the container: one flat map whose keys
are concatenated names.  `buildLabels` sorts the hosts by four flags, splits every class
by the middleware list (and the DNS-01 class by the wildcard base as well) and writes one
router per part.

A domain takes part in at most two routers, one on `web` and one on `websecure`.  Which
ones is a matter of the domain alone: its `webSlot` and its `secureSlot`.  The routers
`buildLabels` describes are one per slot in use, each with exactly the hosts of the
domains on it (`routers_fit`), so hosts are partitioned because slots are; and distinct
slots have distinct router names (`Slot.tail_inj`), so no label is written twice.
-/
open List
namespace Aoox.Proxy

open JsString

/-! ## Domains -/

/-- A host routed to a container.  `dns = some main`: the certificate comes through
DNS-01, for the wildcard base `main` if it has one. -/
structure RoutedDomain where
  host : JsString
  (https customCert : Bool)
  dns : Option (Option JsString)
  middlewares : List JsString
  deriving DecidableEq

structure LabelOptions where
  httpsPort : Nat
  (acme dnsResolver retry : Bool)

def isRefStart (c : CodeUnit) : Bool := (cu 'a' ≤ c && c ≤ cu 'z') || isDigit c

def isRefUnit (c : CodeUnit) : Bool := isRefStart c || c = cu '-'

/-- `MIDDLEWARE_REF`: a lower-case name of at most 63 units and `@file`. -/
def isMiddlewareRef (m : JsString) : Bool :=
  let name := m.take (m.length - 5)
  m.drop (m.length - 5) = js "@file" && name.length ≤ 63 && name.all isRefUnit &&
    name.head?.any isRefStart

/-- The valid middleware references of a domain, in order, without repeats. -/
def middlewaresOf (d : RoutedDomain) : List JsString :=
  d.middlewares.eraseDups.filter isMiddlewareRef

/-- The text a middleware list is grouped by. -/
def middlewareKey (d : RoutedDomain) : JsString := join (middlewaresOf d) (js ",")

/-- The wildcard base of a DNS-01 domain, empty when it has none. -/
def mainOf (d : RoutedDomain) : JsString := (d.dns.bind id).getD []

/-! ## Groups -/

section Labels

-- `createHash('sha1').update(v).digest('hex')`
variable (sha1 : JsString → JsString)

def shortHash (v : JsString) : JsString := sliceTo (sha1 v) 8

/-- What a middleware list adds to the name of its router. -/
def middlewareSuffix (key : JsString) : JsString :=
  if key = [] then [] else js "-m" ++ shortHash sha1 key

structure Group where
  suffix : JsString
  (middlewares hosts : List JsString)

def byMiddlewares (domains : List RoutedDomain) : List Group :=
  (domains.foldl (fun groups d =>
    let key := middlewareKey d
    match Assoc.get groups key with
    | some g => Assoc.set groups key { g with hosts := g.hosts ++ [d.host] }
    | none => Assoc.set groups key ⟨middlewareSuffix sha1 key, middlewaresOf d, [d.host]⟩)
    []).map Prod.snd

/-! ## Routers and their labels -/

/-- What a `websecure` router says about its certificate. -/
structure Tls where
  certresolver : Option JsString
  /-- `tls.domains[0].main`; `sans` is `*.` in front of it. -/
  main : Option JsString

structure Router where
  name : JsString
  hosts : List JsString
  entrypoint : JsString
  tls : Option Tls
  middlewares : List JsString

def web : JsString := js "web"
def websecure : JsString := js "websecure"
def certResolver : JsString := js "le"
def dnsCertResolver : JsString := js "le-dns"

def rule (hosts : List JsString) : JsString :=
  join (hosts.map fun h => js "Host(`" ++ h ++ js "`)") (js " || ")

def routerKey (name field : JsString) : JsString :=
  js "traefik.http.routers." ++ (name ++ (js "." ++ field))

def middlewareDefKey (name field : JsString) : JsString :=
  js "traefik.http.middlewares." ++ (name ++ (js "." ++ field))

def Tls.labels (t : Tls) (name : JsString) : List (JsString × JsString) :=
  (routerKey name (js "tls"), js "true") ::
    (t.certresolver.toList.map fun r => (routerKey name (js "tls.certresolver"), r)) ++
    t.main.toList.flatMap fun main =>
      [(routerKey name (js "tls.domains[0].main"), main),
        (routerKey name (js "tls.domains[0].sans"), js "*." ++ main)]

/-- The assignments that describe one router, in the order of the source; the label of
the chain is only written for a chain that is not empty. -/
def Router.labels (service : JsString) (r : Router) : List (JsString × JsString) :=
  [(routerKey r.name (js "rule"), rule r.hosts),
    (routerKey r.name (js "entrypoints"), r.entrypoint),
    (routerKey r.name (js "service"), service)] ++
    (r.tls.toList.flatMap fun t => t.labels r.name) ++
    if r.middlewares = [] then []
    else [(routerKey r.name (js "middlewares"), join r.middlewares (js ","))]

variable (routerName : JsString) (opts : LabelOptions)

def retryName : JsString := routerName ++ js "-retry"

/-- Retry first, so it also wraps the operator middlewares. -/
def chainOf (list : List JsString) : List JsString :=
  if opts.retry then retryName routerName :: list else list

/-- One router per middleware list of the given domains. -/
def serving (tail entrypoint : JsString) (tls : Option Tls) (domains : List RoutedDomain) :
    List Router :=
  (byMiddlewares sha1 domains).map fun g =>
    ⟨routerName ++ tail ++ g.suffix, g.hosts, entrypoint, tls, chainOf routerName opts g.middlewares⟩

variable (domains : List RoutedDomain)

/-- Hosts that are sent to https: those with an uploaded certificate, and the other
https hosts once a resolver exists. -/
def redirectHosts : List JsString :=
  (if opts.acme then (domains.filter fun d => d.https && !d.customCert).map RoutedDomain.host
    else []) ++
    (domains.filter fun d => d.https && d.customCert).map RoutedDomain.host

def plainHosts : List JsString :=
  (domains.map RoutedDomain.host).filter fun h => h ∉ redirectHosts opts domains

/-- The https domains that ask for DNS-01 and whose proxy has the resolver. -/
def dnsDomains : List RoutedDomain :=
  if opts.dnsResolver then domains.filter fun d => d.https && !d.customCert && d.dns.isSome
  else []

def plainRouters : List Router :=
  serving sha1 routerName opts [] web none
    (domains.filter fun d => d.host ∈ plainHosts opts domains)

def redirectRouters : List Router :=
  if redirectHosts opts domains = [] then []
  else [⟨routerName ++ js "-redirect", redirectHosts opts domains, web, none,
    [routerName ++ js "-https"]⟩]

def secureRouters : List Router :=
  serving sha1 routerName opts (js "-secure") websecure (some ⟨some certResolver, none⟩)
    (domains.filter fun d => d.https && !d.customCert &&
      d.host ∉ (dnsDomains opts domains).map RoutedDomain.host)

/-- What a wildcard base adds to the name of its routers. -/
def mainSuffix (main : JsString) : JsString :=
  if main = [] then js "-dns" else js "-dns-" ++ shortHash sha1 main

def dnsRouters : List Router :=
  (Grouping.collect mainOf (dnsDomains opts domains)).flatMap fun e =>
    serving sha1 routerName opts (js "-secure" ++ mainSuffix sha1 e.1) websecure
      (some ⟨some dnsCertResolver, if e.1 = [] then none else some e.1⟩) e.2

def customRouters : List Router :=
  serving sha1 routerName opts (js "-secure-custom") websecure (some ⟨none, none⟩)
    (domains.filter fun d => d.https && d.customCert)

/-- The definition of the middleware in front of the redirect router. -/
def redirectLabels : List (JsString × JsString) :=
  if redirectHosts opts domains = [] then []
  else
    [(middlewareDefKey (routerName ++ js "-https") (js "redirectscheme.scheme"), js "https"),
      (middlewareDefKey (routerName ++ js "-https") (js "redirectscheme.permanent"), js "true"),
      (middlewareDefKey (routerName ++ js "-https") (js "redirectscheme.port"),
        js (toString opts.httpsPort))]

def retryLabels : List (JsString × JsString) :=
  if opts.retry then
    [(middlewareDefKey (retryName routerName) (js "retry.attempts"), js "3"),
      (middlewareDefKey (retryName routerName) (js "retry.initialinterval"), js "100ms")]
  else []

/-- The assignments `labels[...] = ...` in their order. -/
def assignments (port : Nat) : List (JsString × JsString) :=
  let labels := fun (rs : List Router) => rs.flatMap (Router.labels routerName)
  [(js "traefik.enable", js "true"),
    (js "traefik.http.services." ++ (routerName ++ js ".loadbalancer.server.port"),
      js (toString port))] ++
    retryLabels routerName opts ++ labels (plainRouters sha1 routerName opts domains) ++
    labels (redirectRouters routerName opts domains) ++ redirectLabels routerName opts domains ++
    labels (secureRouters sha1 routerName opts domains) ++
    labels (dnsRouters sha1 routerName opts domains) ++
    labels (customRouters sha1 routerName opts domains)

def buildLabels (port : Nat) : List (JsString × JsString) :=
  if domains = [] then []
  else Assoc.setAll [] (assignments sha1 routerName opts domains port)

/-- The routers whose labels are written, in their order. -/
def routers : List Router :=
  plainRouters sha1 routerName opts domains ++ redirectRouters routerName opts domains ++
    secureRouters sha1 routerName opts domains ++ dnsRouters sha1 routerName opts domains ++
    customRouters sha1 routerName opts domains

end Labels

theorem rule_cons (h : JsString) (hs : List JsString) :
    rule (h :: hs) = js "Host(`" ++ (h ++ (cu '`' :: cu ')' ::
      if hs = [] then [] else js " || " ++ rule hs)) := by
  cases hs with
  | nil => simp [rule, join]; rfl
  | cons h' hs =>
    simp only [rule, join, map_cons, intercalate_cons_cons, cons_ne_nil, if_false]
    simp only [append_assoc]
    rfl

/-! ## Middleware lists -/

/-- A valid reference is not empty and holds no comma. -/
theorem isMiddlewareRef_clean {m : JsString} (h : isMiddlewareRef m = true) :
    m ≠ [] ∧ cu ',' ∉ m := by
  simp only [isMiddlewareRef, Bool.and_eq_true, decide_eq_true_eq] at h
  obtain ⟨⟨⟨hfile, -⟩, hall⟩, hhead⟩ := h
  have hsplit : m.take (m.length - 5) ++ js "@file" = m := by
    rw [← hfile, take_append_drop]
  refine ⟨?_, fun hcomma => ?_⟩
  · rintro rfl
    simp at hhead
  · rw [← hsplit, mem_append] at hcomma
    rcases hcomma with hname | hrest
    · exact absurd (all_eq_true.mp hall _ hname) (by decide)
    · exact absurd hrest (by decide)

variable {d : RoutedDomain}

theorem middlewaresOf_clean {m : JsString} (h : m ∈ middlewaresOf d) : m ≠ [] ∧ cu ',' ∉ m :=
  isMiddlewareRef_clean (mem_filter.mp h).2

def refsOf (key : JsString) : List JsString := if key = [] then [] else key.splitOn (cu ',')

theorem refsOf_middlewareKey (d : RoutedDomain) : refsOf (middlewareKey d) = middlewaresOf d := by
  cases hms : middlewaresOf d with
  | nil => simp [middlewareKey, hms, refsOf, join]
  | cons m ms =>
    have hclean : ∀ x ∈ m :: ms, x ≠ [] ∧ cu ',' ∉ x := by
      intro x hx
      exact middlewaresOf_clean (hms ▸ hx)
    have hne : middlewareKey d ≠ [] := by
      obtain ⟨c, rest, hm⟩ := exists_cons_of_ne_nil (hclean m mem_cons_self).1
      rw [middlewareKey, hms, hm]
      cases ms <;> simp [join]
    rw [refsOf, if_neg hne, middlewareKey, hms]
    exact splitOn_intercalate (cu ',') (fun x hx => (hclean x hx).2) (by simp)

/-- **What a domain's chain holds**: the valid references it lists, in their order, each
once. -/
theorem middlewaresOf_spec (d : RoutedDomain) :
    (middlewaresOf d).Nodup ∧ (∀ m, m ∈ middlewaresOf d ↔ m ∈ d.middlewares ∧ isMiddlewareRef m) ∧
      (middlewaresOf d).Sublist d.middlewares := by
  refine ⟨(Grouping.nodup_eraseDups _).filter _, fun m => ?_, ?_⟩
  · rw [middlewaresOf, mem_filter, mem_eraseDups]
  · exact filter_sublist.trans (Grouping.eraseDups_sublist _)

/-! ## Groups in closed form -/

section Groups
variable (sha1 : JsString → JsString)

def groupOf (ds : List RoutedDomain) : Group :=
  ⟨(ds.head?.map fun d => middlewareSuffix sha1 (middlewareKey d)).getD [],
    (ds.head?.map middlewaresOf).getD [], ds.map RoutedDomain.host⟩

theorem groupOf_concat {ds : List RoutedDomain} (h : ds ≠ []) (d : RoutedDomain) :
    groupOf sha1 (ds ++ [d]) =
      { groupOf sha1 ds with hosts := (groupOf sha1 ds).hosts ++ [d.host] } := by
  obtain ⟨d', ds, rfl⟩ := exists_cons_of_ne_nil h
  simp [groupOf]

theorem byMiddlewares_collect (domains : List RoutedDomain) :
    byMiddlewares sha1 domains =
      (Grouping.collect middlewareKey domains).map fun e => groupOf sha1 e.2 := by
  rw [byMiddlewares]
  -- the map of the source is the collected one with every part turned into its group
  suffices h : domains.foldl _ [] =
      (Grouping.collect middlewareKey domains).map fun e => (e.1, groupOf sha1 e.2) by
    rw [h, map_map]
    rfl
  induction domains using reverseRecOn with
  | nil => rfl
  | append_singleton ds d ih =>
    have hpush : Grouping.collect middlewareKey (ds ++ [d]) =
        Grouping.push middlewareKey (Grouping.collect middlewareKey ds) d := by
      simp [Grouping.collect]
    rw [foldl_append, ih, hpush, Grouping.push, Assoc.set_map]
    simp only [foldl_cons, foldl_nil, Assoc.get_map]
    cases hget : Assoc.get (Grouping.collect middlewareKey ds) (middlewareKey d) with
    | none => simp [groupOf]
    | some part =>
      have hne : part ≠ [] := Grouping.collect_ne_nil (Assoc.mem_of_get hget)
      simp [groupOf_concat sha1 hne]

/-- **The groups**: one per middleware list, with the hosts that have it. -/
theorem byMiddlewares_eq (domains : List RoutedDomain) :
    byMiddlewares sha1 domains = (domains.map middlewareKey).eraseDups.map fun key =>
      ⟨middlewareSuffix sha1 key, refsOf key,
        (domains.filter fun d => middlewareKey d = key).map RoutedDomain.host⟩ := by
  rw [byMiddlewares_collect, Grouping.collect_eq, map_map]
  refine map_congr_left fun key hkey => ?_
  rw [mem_eraseDups, mem_map] at hkey
  obtain ⟨d, hd, rfl⟩ := hkey
  have hne : domains.filter (fun x => middlewareKey x = middlewareKey d) ≠ [] :=
    ne_nil_of_mem (mem_filter.mpr ⟨hd, by simp⟩)
  obtain ⟨d', rest, hpart⟩ := exists_cons_of_ne_nil hne
  have hd' : middlewareKey d' = middlewareKey d := by
    have : d' ∈ domains.filter fun x => middlewareKey x = middlewareKey d := by simp [hpart]
    simpa using (mem_filter.mp this).2
  have hrefs : middlewaresOf d' = refsOf (middlewareKey d) := by
    rw [← hd', refsOf_middlewareKey]
  simp [groupOf, hpart, hd', hrefs]

end Groups

/-! ## Slots -/

/-- The place of a router: its class with the middleware list, and the wildcard base
where the class has one. -/
inductive Slot where
  | plain (key : JsString)
  | redirect
  | secure (key : JsString)
  | dns (main key : JsString)
  | custom (key : JsString)

/-- The domain is sent from http to https. -/
def redirected (opts : LabelOptions) (d : RoutedDomain) : Bool :=
  d.https && (d.customCert || opts.acme)

def webSlot (opts : LabelOptions) (d : RoutedDomain) : Slot :=
  if redirected opts d then .redirect else .plain (middlewareKey d)

def secureSlot (opts : LabelOptions) (d : RoutedDomain) : Option Slot :=
  if !d.https then none
  else if d.customCert then some (.custom (middlewareKey d))
  else if opts.dnsResolver && d.dns.isSome then some (.dns (mainOf d) (middlewareKey d))
  else some (.secure (middlewareKey d))

def On (opts : LabelOptions) (d : RoutedDomain) (s : Slot) : Prop :=
  webSlot opts d = s ∨ secureSlot opts d = some s

variable {opts : LabelOptions} {key : JsString}

theorem on_plain : On opts d (.plain key) ↔ redirected opts d = false ∧ middlewareKey d = key := by
  grind [On, webSlot, secureSlot]

theorem on_redirect : On opts d .redirect ↔ redirected opts d = true := by
  grind [On, webSlot, secureSlot]

theorem on_secure :
    On opts d (.secure key) ↔ d.https = true ∧ d.customCert = false ∧
      (opts.dnsResolver && d.dns.isSome) = false ∧ middlewareKey d = key := by
  grind [On, webSlot, secureSlot]

theorem on_dns {main : JsString} :
    On opts d (.dns main key) ↔ d.https = true ∧ d.customCert = false ∧
      (opts.dnsResolver && d.dns.isSome) = true ∧ mainOf d = main ∧ middlewareKey d = key := by
  grind [On, webSlot, secureSlot]

theorem on_custom :
    On opts d (.custom key) ↔ d.https = true ∧ d.customCert = true ∧ middlewareKey d = key := by
  grind [On, webSlot, secureSlot]

/-- What the slot adds to the name of its router. -/
def Slot.tail (sha1 : JsString → JsString) : Slot → JsString
  | .plain key => middlewareSuffix sha1 key
  | .redirect => js "-redirect"
  | .secure key => js "-secure" ++ middlewareSuffix sha1 key
  | .dns main key => js "-secure" ++ (mainSuffix sha1 main ++ middlewareSuffix sha1 key)
  | .custom key => js "-secure-custom" ++ middlewareSuffix sha1 key

def Slot.entrypoint : Slot → JsString
  | .plain _ => web
  | .redirect => web
  | .secure _ => websecure
  | .dns _ _ => websecure
  | .custom _ => websecure

def Slot.tls : Slot → Option Tls
  | .plain _ => none
  | .redirect => none
  | .secure _ => some ⟨some certResolver, none⟩
  | .dns main _ => some ⟨some dnsCertResolver, if main = [] then none else some main⟩
  | .custom _ => some ⟨none, none⟩

def Slot.chain (routerName : JsString) (opts : LabelOptions) : Slot → List JsString
  | .redirect => [routerName ++ js "-https"]
  | .plain key => chainOf routerName opts (refsOf key)
  | .secure key => chainOf routerName opts (refsOf key)
  | .dns _ key => chainOf routerName opts (refsOf key)
  | .custom key => chainOf routerName opts (refsOf key)

variable {s : Slot}

section Fits
variable (sha1 : JsString → JsString) (routerName : JsString) (opts : LabelOptions)
  (domains : List RoutedDomain)

structure Fits (s : Slot) (r : Router) : Prop where
  name : r.name = routerName ++ s.tail sha1
  entrypoint : r.entrypoint = s.entrypoint
  tls : r.tls = s.tls
  middlewares : r.middlewares = s.chain routerName opts
  hosts : ∀ h, h ∈ r.hosts ↔ ∃ d ∈ domains, d.host = h ∧ On opts d s

/-- The slots of a class: one per middleware list of its domains. -/
def slotsOf (mk : JsString → Slot) (part : List RoutedDomain) : List Slot :=
  (part.map middlewareKey).eraseDups.map mk

variable {sha1 routerName opts domains}

variable {mk : JsString → Slot}

/-- The routers of a class fit the slots of the class. -/
theorem serving_fits {part : List RoutedDomain} {tail entrypoint : JsString} {tls : Option Tls}
    (htail : ∀ key, (mk key).tail sha1 = tail ++ middlewareSuffix sha1 key)
    (hentry : ∀ key, (mk key).entrypoint = entrypoint) (htls : ∀ key, (mk key).tls = tls)
    (hchain : ∀ key, (mk key).chain routerName opts = chainOf routerName opts (refsOf key))
    (hpart : ∀ d key, (d ∈ domains ∧ On opts d (mk key)) ↔ (d ∈ part ∧ middlewareKey d = key)) :
    Forall₂ (Fits sha1 routerName opts domains) (slotsOf mk part)
      (serving sha1 routerName opts tail entrypoint tls part) := by
  rw [slotsOf, serving, byMiddlewares_eq, map_map, forall₂_map_left_iff,
    forall₂_map_right_iff, forall₂_same]
  intro key _
  refine ⟨?_, (hentry key).symm, (htls key).symm, (hchain key).symm, fun h => ?_⟩
  · simp [htail]
  · simp only [Function.comp, mem_map, mem_filter, decide_eq_true_eq]
    constructor
    · rintro ⟨d, hd, rfl⟩
      obtain ⟨hmem, hon⟩ := (hpart d key).mpr hd
      exact ⟨d, hmem, rfl, hon⟩
    · rintro ⟨d, hmem, rfl, hon⟩
      exact ⟨d, (hpart d key).mp ⟨hmem, hon⟩, rfl⟩

/-! ### The parts of the domain list -/

theorem host_mem_iff (hnd : (domains.map RoutedDomain.host).Nodup) (hd : d ∈ domains)
    (p : RoutedDomain → Bool) : d.host ∈ (domains.filter p).map RoutedDomain.host ↔ p d = true := by
  rw [mem_map]
  constructor
  · rintro ⟨d', hd', hhost⟩
    obtain ⟨hmem, hp⟩ := mem_filter.mp hd'
    rwa [← inj_on_of_nodup_map hnd hmem hd hhost]
  · intro hp
    exact ⟨d, mem_filter.mpr ⟨hd, hp⟩, rfl⟩

theorem mem_redirectHosts (hnd : (domains.map RoutedDomain.host).Nodup)
    (hd : d ∈ domains) : d.host ∈ redirectHosts opts domains ↔ redirected opts d = true := by
  rw [redirectHosts, mem_append, host_mem_iff hnd hd]
  cases hacme : opts.acme
  · simp [redirected, hacme]
  · rw [if_pos rfl, host_mem_iff hnd hd]
    cases hc : d.customCert <;> simp [redirected, hc, hacme]

theorem redirectHosts_eq_nil :
    redirectHosts opts domains = [] ↔ ∀ d ∈ domains, redirected opts d = false := by
  rw [redirectHosts, append_eq_nil_iff]
  cases hacme : opts.acme <;>
    simp only [map_eq_nil_iff, filter_eq_nil_iff, redirected, hacme, if_true,
      Bool.false_eq_true, if_false, true_and]
  · refine forall₂_congr fun d _ => ?_
    cases d.https <;> cases d.customCert <;> simp
  · rw [← forall₂_and]
    refine forall₂_congr fun d _ => ?_
    cases d.https <;> cases d.customCert <;> simp

theorem mem_plainPart (hnd : (domains.map RoutedDomain.host).Nodup) :
    d ∈ domains.filter (fun d => d.host ∈ plainHosts opts domains) ↔
      d ∈ domains ∧ redirected opts d = false := by
  rw [mem_filter, and_congr_right_iff]
  intro hd
  rw [decide_eq_true_eq, plainHosts, mem_filter, decide_eq_true_eq,
    mem_redirectHosts hnd hd, Bool.not_eq_true]
  exact and_iff_right (mem_map_of_mem hd)

theorem mem_dnsDomains :
    d ∈ dnsDomains opts domains ↔ d ∈ domains ∧ d.https = true ∧ d.customCert = false ∧
      (opts.dnsResolver && d.dns.isSome) = true := by
  rw [dnsDomains]
  cases opts.dnsResolver <;> simp [and_assoc]

theorem mem_securePart (hnd : (domains.map RoutedDomain.host).Nodup) :
    d ∈ domains.filter (fun d => d.https && !d.customCert &&
        d.host ∉ (dnsDomains opts domains).map RoutedDomain.host) ↔
      d ∈ domains ∧ d.https = true ∧ d.customCert = false ∧
        (opts.dnsResolver && d.dns.isSome) = false := by
  rw [mem_filter, and_congr_right_iff]
  intro hd
  have hdns : d.host ∈ (dnsDomains opts domains).map RoutedDomain.host ↔
      d ∈ dnsDomains opts domains := by
    refine ⟨fun h => ?_, mem_map_of_mem⟩
    obtain ⟨d', hd', hhost⟩ := mem_map.mp h
    rwa [← inj_on_of_nodup_map hnd (mem_dnsDomains.mp hd').1 hd hhost]
  simp only [Bool.and_eq_true, Bool.not_eq_true', decide_eq_true_eq, hdns, mem_dnsDomains, hd,
    true_and, and_assoc, and_congr_right_iff]
  intro hhttps hcustom
  simp [hhttps, hcustom]

theorem mem_dnsPart {e : JsString × List RoutedDomain}
    (he : e ∈ Grouping.collect mainOf (dnsDomains opts domains)) :
    d ∈ e.2 ↔ d ∈ domains ∧ d.https = true ∧ d.customCert = false ∧
      (opts.dnsResolver && d.dns.isSome) = true ∧ mainOf d = e.1 := by
  obtain ⟨main, part⟩ := e
  obtain ⟨-, rfl⟩ := Grouping.mem_collect.mp he
  rw [mem_filter, mem_dnsDomains, decide_eq_true_eq]
  simp only [and_assoc]

variable (opts domains)

/-- The slots in the order of the source. -/
def slots : List Slot :=
  slotsOf .plain (domains.filter fun d => d.host ∈ plainHosts opts domains) ++
    (if redirectHosts opts domains = [] then [] else [.redirect]) ++
    slotsOf .secure (domains.filter fun d => d.https && !d.customCert &&
      d.host ∉ (dnsDomains opts domains).map RoutedDomain.host) ++
    ((Grouping.collect mainOf (dnsDomains opts domains)).flatMap fun e =>
      slotsOf (.dns e.1) e.2) ++
    slotsOf .custom (domains.filter fun d => d.https && d.customCert)

variable {opts domains}

theorem redirect_fits (hnd : (domains.map RoutedDomain.host).Nodup) :
    Forall₂ (Fits sha1 routerName opts domains)
      (if redirectHosts opts domains = [] then [] else [.redirect])
      (redirectRouters routerName opts domains) := by
  rw [redirectRouters]
  split
  · exact .nil
  · refine .cons ⟨rfl, rfl, rfl, rfl, fun h => ?_⟩ .nil
    constructor
    · intro hh
      have hhost : h ∈ domains.map RoutedDomain.host := by
        simp only [redirectHosts, mem_append] at hh
        rcases hh with hh | hh
        · split at hh
          · exact (filter_sublist.map _).subset hh
          · cases hh
        · exact (filter_sublist.map _).subset hh
      obtain ⟨d, hd, rfl⟩ := mem_map.mp hhost
      exact ⟨d, hd, rfl, on_redirect.mpr ((mem_redirectHosts hnd hd).mp hh)⟩
    · rintro ⟨d, hd, rfl, hon⟩
      exact (mem_redirectHosts hnd hd).mpr (on_redirect.mp hon)

variable (sha1 routerName) in
/-- **One router per slot in use.** -/
theorem routers_fit (hnd : (domains.map RoutedDomain.host).Nodup) :
    Forall₂ (Fits sha1 routerName opts domains) (slots opts domains)
      (routers sha1 routerName opts domains) := by
  refine rel_append (rel_append (rel_append (rel_append ?_
    (redirect_fits hnd)) ?_) ?_) ?_
  · refine serving_fits (fun _ => rfl) (fun _ => rfl) (fun _ => rfl) (fun _ => rfl) ?_
    intro d key
    rw [mem_plainPart hnd, on_plain, and_assoc]
  · refine serving_fits (fun _ => rfl) (fun _ => rfl) (fun _ => rfl) (fun _ => rfl) ?_
    intro d key
    rw [mem_securePart hnd, on_secure]
    simp only [and_assoc]
  · have hsame : Forall₂ (fun e e' => e = e' ∧ e ∈ Grouping.collect mainOf (dnsDomains opts domains))
        (Grouping.collect mainOf (dnsDomains opts domains))
        (Grouping.collect mainOf (dnsDomains opts domains)) :=
      forall₂_same.mpr fun e he => ⟨rfl, he⟩
    refine rel_flatMap hsame ?_
    rintro ⟨main, part⟩ _ ⟨rfl, he⟩
    refine serving_fits (fun _ => by simp [Slot.tail]) (fun _ => rfl) (fun _ => rfl)
      (fun _ => rfl) ?_
    intro d key
    rw [mem_dnsPart he, on_dns]
    simp only [and_assoc]
  · refine serving_fits (fun _ => rfl) (fun _ => rfl) (fun _ => rfl) (fun _ => rfl) ?_
    intro d key
    rw [on_custom, mem_filter, Bool.and_eq_true]
    simp only [and_assoc]

theorem mem_slotsOf {part : List RoutedDomain} :
    s ∈ slotsOf mk part ↔ ∃ d ∈ part, mk (middlewareKey d) = s := by
  simp [slotsOf]

theorem mem_slots (hnd : (domains.map RoutedDomain.host).Nodup) :
    s ∈ slots opts domains ↔ ∃ d ∈ domains, On opts d s := by
  have hdns : s ∈ (Grouping.collect mainOf (dnsDomains opts domains)).flatMap
      (fun e => slotsOf (.dns e.1) e.2) ↔
      ∃ d ∈ dnsDomains opts domains, .dns (mainOf d) (middlewareKey d) = s := by
    rw [mem_flatMap]
    constructor
    · rintro ⟨⟨main, part⟩, he, hs⟩
      obtain ⟨-, rfl⟩ := Grouping.mem_collect.mp he
      obtain ⟨d, hd, rfl⟩ := mem_slotsOf.mp hs
      obtain ⟨hd, hmain⟩ := mem_filter.mp hd
      exact ⟨d, hd, by simpa using hmain⟩
    · rintro ⟨d, hd, rfl⟩
      refine ⟨(mainOf d, _), Grouping.mem_collect.mpr ⟨mem_map_of_mem hd, rfl⟩, ?_⟩
      exact mem_slotsOf.mpr ⟨d, mem_filter.mpr ⟨hd, by simp⟩, rfl⟩
  rw [slots, mem_append, mem_append, mem_append, mem_append, mem_slotsOf,
    mem_slotsOf, mem_slotsOf, hdns]
  constructor
  · rintro ((((⟨d, hd, rfl⟩ | hs) | ⟨d, hd, rfl⟩) | ⟨d, hd, rfl⟩) | ⟨d, hd, rfl⟩)
    · obtain ⟨hd, hr⟩ := (mem_plainPart hnd).mp hd
      exact ⟨d, hd, on_plain.mpr ⟨hr, rfl⟩⟩
    · split at hs
      · cases hs
      · rename_i hne
        obtain rfl := mem_singleton.mp hs
        rw [redirectHosts_eq_nil] at hne
        push Not at hne
        obtain ⟨d, hd, hr⟩ := hne
        exact ⟨d, hd, on_redirect.mpr (by simpa using hr)⟩
    · obtain ⟨hd, h1, h2, h3⟩ := (mem_securePart hnd).mp hd
      exact ⟨d, hd, on_secure.mpr ⟨h1, h2, h3, rfl⟩⟩
    · obtain ⟨hd, h1, h2, h3⟩ := mem_dnsDomains.mp hd
      exact ⟨d, hd, on_dns.mpr ⟨h1, h2, h3, rfl, rfl⟩⟩
    · obtain ⟨hd, h⟩ := mem_filter.mp hd
      obtain ⟨h1, h2⟩ := Bool.and_eq_true_iff.mp h
      exact ⟨d, hd, on_custom.mpr ⟨h1, h2, rfl⟩⟩
  · rintro ⟨d, hd, hon⟩
    cases s with
    | plain key =>
      obtain ⟨hr, rfl⟩ := on_plain.mp hon
      exact .inl (.inl (.inl (.inl ⟨d, (mem_plainPart hnd).mpr ⟨hd, hr⟩, rfl⟩)))
    | redirect =>
      have hne : redirectHosts opts domains ≠ [] := by
        rw [Ne, redirectHosts_eq_nil]
        intro h
        exact absurd (on_redirect.mp hon) (by simp [h d hd])
      exact .inl (.inl (.inl (.inr (by simp [hne]))))
    | secure key =>
      obtain ⟨h1, h2, h3, rfl⟩ := on_secure.mp hon
      exact .inl (.inl (.inr ⟨d, (mem_securePart hnd).mpr ⟨hd, h1, h2, h3⟩, rfl⟩))
    | dns main key =>
      obtain ⟨h1, h2, h3, rfl, rfl⟩ := on_dns.mp hon
      exact .inl (.inr ⟨d, mem_dnsDomains.mpr ⟨hd, h1, h2, h3⟩, rfl⟩)
    | custom key =>
      obtain ⟨h1, h2, rfl⟩ := on_custom.mp hon
      exact .inr ⟨d, mem_filter.mpr ⟨hd, by simp [h1, h2]⟩, rfl⟩

theorem slotsOf_nodup (hmk : Function.Injective mk)
    (part : List RoutedDomain) : (slotsOf mk part).Nodup :=
  (Grouping.nodup_eraseDups _).map hmk

theorem dnsSlots_nodup (ds : List RoutedDomain) :
    ((Grouping.collect mainOf ds).flatMap fun e => slotsOf (.dns e.1) e.2).Nodup := by
  rw [nodup_flatMap]
  refine ⟨fun e _ => slotsOf_nodup (fun _ _ h => (Slot.dns.inj h).2) e.2, ?_⟩
  have hkeys := Grouping.collect_keys_nodup mainOf ds
  rw [Nodup, pairwise_map] at hkeys
  refine hkeys.imp fun {e e'} hne => ?_
  intro s hs hs'
  obtain ⟨d, -, rfl⟩ := mem_slotsOf.mp hs
  obtain ⟨d', -, heq⟩ := mem_slotsOf.mp hs'
  exact hne (Slot.dns.inj heq).1.symm

theorem slots_nodup : (slots opts domains).Nodup := by
  have hredirect : (if redirectHosts opts domains = [] then [] else [Slot.redirect]).Nodup := by
    split <;> simp
  refine nodup_append.mpr ⟨nodup_append.mpr ⟨nodup_append.mpr
    ⟨nodup_append.mpr ⟨slotsOf_nodup (fun _ _ => Slot.plain.inj) _, hredirect, ?_⟩,
      slotsOf_nodup (fun _ _ => Slot.secure.inj) _, ?_⟩, dnsSlots_nodup _, ?_⟩,
    slotsOf_nodup (fun _ _ => Slot.custom.inj) _, ?_⟩
  all_goals
    rintro s hs s' hs' rfl
    simp only [mem_append, mem_slotsOf, mem_flatMap, mem_ite_nil_left,
      mem_singleton] at hs hs'
    grind

end Fits

/-! ## Router names -/

def isHexDigit (c : CodeUnit) : Bool := isDigit c || (cu 'a' ≤ c && c ≤ cu 'f')

/-- A hex digest of SHA-1: 40 lower-case hexadecimal digits. -/
structure IsHexDigest (sha1 : JsString → JsString) : Prop where
  length : ∀ v, (sha1 v).length = 40
  hex : ∀ v, ∀ c ∈ sha1 v, isHexDigit c = true

/-- The hash prefixes in use do not collide: neither those of the middleware lists nor
those of the wildcard bases. -/
structure HashesApart (sha1 : JsString → JsString) (domains : List RoutedDomain) : Prop where
  keys : ∀ d ∈ domains, ∀ d' ∈ domains, middlewareKey d ≠ [] → middlewareKey d' ≠ [] →
    shortHash sha1 (middlewareKey d) = shortHash sha1 (middlewareKey d') →
      middlewareKey d = middlewareKey d'
  mains : ∀ d ∈ domains, ∀ d' ∈ domains, mainOf d ≠ [] → mainOf d' ≠ [] →
    shortHash sha1 (mainOf d) = shortHash sha1 (mainOf d') → mainOf d = mainOf d'

section Names
variable {sha1 : JsString → JsString}

theorem middlewareSuffix_inj {key' : JsString}
    (hapart : key ≠ [] → key' ≠ [] → shortHash sha1 key = shortHash sha1 key' → key = key')
    (h : middlewareSuffix sha1 key = middlewareSuffix sha1 key') : key = key' := by
  by_cases hk : key = []
  · by_cases hk' : key' = []
    · rw [hk, hk']
    · rw [middlewareSuffix, middlewareSuffix, if_pos hk, if_neg hk'] at h
      cases h
  · by_cases hk' : key' = []
    · rw [middlewareSuffix, middlewareSuffix, if_neg hk, if_pos hk'] at h
      cases h
    · rw [middlewareSuffix, middlewareSuffix, if_neg hk, if_neg hk'] at h
      exact hapart hk hk' (append_cancel_left h)

theorem shortHash_length (hsha : IsHexDigest sha1) (v : JsString) :
    (shortHash sha1 v).length = 8 := by
  simp [shortHash, sliceTo, hsha.length]

/-- A hash does not begin like a middleware suffix after its dash. -/
theorem shortHash_head (hsha : IsHexDigest sha1) (v rest : JsString) :
    (shortHash sha1 v ++ rest)[0]? ≠ some (cu 'm') := by
  intro h
  rw [List.getElem?_append_left (by rw [shortHash_length hsha]; omega)] at h
  have hmem := (take_sublist 8 (sha1 v)).subset (mem_of_getElem? h)
  exact absurd (hsha.hex v _ hmem) (by decide)

theorem mainSuffix_inj (hsha : IsHexDigest sha1) {main main' key' : JsString}
    (hmain : main ≠ [] → main' ≠ [] → shortHash sha1 main = shortHash sha1 main' → main = main')
    (hkey : key ≠ [] → key' ≠ [] → shortHash sha1 key = shortHash sha1 key' → key = key')
    (h : mainSuffix sha1 main ++ middlewareSuffix sha1 key =
      mainSuffix sha1 main' ++ middlewareSuffix sha1 key') : main = main' ∧ key = key' := by
  -- a base's hash is a word of its own, so a name without base never reads like one with it
  have hmixed : ∀ {k v rest : JsString}, middlewareSuffix sha1 k ≠
      js "-" ++ (shortHash sha1 v ++ rest) := by
    intro k v rest heq
    rw [middlewareSuffix] at heq
    split at heq
    · cases heq
    · have := congrArg (fun t => t[1]?) heq
      exact shortHash_head hsha v rest this.symm
  by_cases hm : main = []
  · by_cases hm' : main' = []
    · rw [mainSuffix, mainSuffix, if_pos hm, if_pos hm'] at h
      exact ⟨hm.trans hm'.symm, middlewareSuffix_inj hkey (append_cancel_left h)⟩
    · rw [mainSuffix, mainSuffix, if_pos hm, if_neg hm'] at h
      have : js "-dns" ++ middlewareSuffix sha1 key = js "-dns" ++
          (js "-" ++ (shortHash sha1 main' ++ middlewareSuffix sha1 key')) := by
        rw [h, append_assoc]
        rfl
      exact absurd (append_cancel_left this) hmixed
  · by_cases hm' : main' = []
    · rw [mainSuffix, mainSuffix, if_neg hm, if_pos hm'] at h
      have : js "-dns" ++ (js "-" ++ (shortHash sha1 main ++ middlewareSuffix sha1 key)) =
          js "-dns" ++ middlewareSuffix sha1 key' := by
        rw [← h, append_assoc]
        rfl
      exact absurd (append_cancel_left this).symm hmixed
    · rw [mainSuffix, mainSuffix, if_neg hm, if_neg hm', append_assoc,
        append_assoc] at h
      have hlen : (shortHash sha1 main).length = (shortHash sha1 main').length := by
        rw [shortHash_length hsha, shortHash_length hsha]
      obtain ⟨hhash, hsuffix⟩ := append_inj (append_cancel_left h) hlen
      exact ⟨hmain hm hm' hhash, middlewareSuffix_inj hkey hsuffix⟩

/-- The second unit of a tail tells the classes apart, the ninth those of `-secure`. -/
theorem middlewareSuffix_second (key : JsString) :
    (middlewareSuffix sha1 key)[1]? = none ∨ (middlewareSuffix sha1 key)[1]? = some (cu 'm') := by
  rw [middlewareSuffix]
  split
  · exact .inl rfl
  · exact .inr rfl

theorem mainSuffix_second (main rest : JsString) :
    (mainSuffix sha1 main ++ rest)[1]? = some (cu 'd') := by
  rw [mainSuffix]
  split <;> rfl

theorem secure_ninth (rest : JsString) : (js "-secure" ++ rest)[8]? = rest[1]? := by
  rw [List.getElem?_append_right (by decide)]
  rfl

theorem Slot.tail_class (sha1 : JsString → JsString) (s : Slot) :
    match s with
    | .plain _ => (s.tail sha1)[1]? = none ∨ (s.tail sha1)[1]? = some (cu 'm')
    | .redirect => (s.tail sha1)[1]? = some (cu 'r')
    | .secure _ => (s.tail sha1)[1]? = some (cu 's') ∧
        ((s.tail sha1)[8]? = none ∨ (s.tail sha1)[8]? = some (cu 'm'))
    | .dns _ _ => (s.tail sha1)[1]? = some (cu 's') ∧ (s.tail sha1)[8]? = some (cu 'd')
    | .custom _ => (s.tail sha1)[1]? = some (cu 's') ∧ (s.tail sha1)[8]? = some (cu 'c') := by
  cases s with
  | plain key => exact middlewareSuffix_second key
  | redirect => rfl
  | secure key =>
    refine ⟨rfl, ?_⟩
    rw [Slot.tail, secure_ninth]
    exact middlewareSuffix_second key
  | dns main key =>
    refine ⟨rfl, ?_⟩
    rw [Slot.tail, secure_ninth, mainSuffix_second]
  | custom key => exact ⟨rfl, rfl⟩

/-- **Distinct slots have distinct router names**, as long as the hashes do not collide. -/
theorem Slot.tail_inj (hsha : IsHexDigest sha1) {domains : List RoutedDomain}
    (hapart : HashesApart sha1 domains) {s' : Slot} (hs : ∃ d ∈ domains, On opts d s)
    (hs' : ∃ d ∈ domains, On opts d s') (h : s.tail sha1 = s'.tail sha1) : s = s' := by
  obtain ⟨d, hd, hon⟩ := hs
  obtain ⟨d', hd', hon'⟩ := hs'
  have hkey := hapart.keys d hd d' hd'
  have hmain := hapart.mains d hd d' hd'
  have hc := Slot.tail_class sha1 s
  have hc' := Slot.tail_class sha1 s'
  rw [h] at hc
  have hrs : cu 'r' ≠ cu 's' := by decide
  have hrm : cu 'r' ≠ cu 'm' := by decide
  have hsm : cu 's' ≠ cu 'm' := by decide
  have hdm : cu 'd' ≠ cu 'm' := by decide
  have hcm : cu 'c' ≠ cu 'm' := by decide
  have hcd : cu 'c' ≠ cu 'd' := by decide
  cases s <;> cases s' <;> dsimp only at hc hc' <;> try (exfalso; grind)
  case plain.plain key key' =>
    obtain ⟨-, rfl⟩ := on_plain.mp hon
    obtain ⟨-, rfl⟩ := on_plain.mp hon'
    exact congrArg _ (middlewareSuffix_inj hkey h)
  case redirect.redirect => rfl
  case secure.secure key key' =>
    obtain ⟨-, -, -, rfl⟩ := on_secure.mp hon
    obtain ⟨-, -, -, rfl⟩ := on_secure.mp hon'
    exact congrArg _ (middlewareSuffix_inj hkey (append_cancel_left h))
  case dns.dns main key main' key' =>
    obtain ⟨-, -, -, rfl, rfl⟩ := on_dns.mp hon
    obtain ⟨-, -, -, rfl, rfl⟩ := on_dns.mp hon'
    obtain ⟨h1, h2⟩ := mainSuffix_inj hsha hmain hkey (append_cancel_left h)
    rw [h1, h2]
  case custom.custom key key' =>
    obtain ⟨-, -, rfl⟩ := on_custom.mp hon
    obtain ⟨-, -, rfl⟩ := on_custom.mp hon'
    exact congrArg _ (middlewareSuffix_inj hkey (append_cancel_left h))

theorem names_nodup (hsha : IsHexDigest sha1) {routerName : JsString} {domains : List RoutedDomain}
    (hnd : (domains.map RoutedDomain.host).Nodup) (hapart : HashesApart sha1 domains) :
    ((routers sha1 routerName opts domains).map Router.name).Nodup := by
  refine Grouping.nodup_map_of_forall₂ (routers_fit _ _ hnd) slots_nodup ?_
  intro s hs s' hs' r r' hr hr' hname
  rw [hr.name, hr'.name] at hname
  exact Slot.tail_inj hsha hapart ((mem_slots hnd).mp hs) ((mem_slots hnd).mp hs')
    (append_cancel_left hname)

end Names

/-! ## Label keys -/

def routerFields : List JsString :=
  [js "rule", js "entrypoints", js "service", js "tls", js "tls.certresolver",
    js "tls.domains[0].main", js "tls.domains[0].sans", js "middlewares"]

/-- No field reads like the end of another. -/
theorem routerFields_apart :
    (routerFields.all fun f => routerFields.all fun f' =>
      f == f' || !(js "." ++ f).isSuffixOf (js "." ++ f')) = true := by
  decide

theorem routerKey_inj {n n' f f' : JsString} (hf : f ∈ routerFields) (hf' : f' ∈ routerFields)
    (h : routerKey n f = routerKey n' f') : n = n' ∧ f = f' := by
  have hcancel := append_cancel_left h
  have happart : ∀ {g g' : JsString}, g ∈ routerFields → g' ∈ routerFields →
      js "." ++ g <:+ js "." ++ g' → g = g' := by
    intro g g' hg hg' hsuffix
    have := all_eq_true.mp (all_eq_true.mp routerFields_apart g hg) g' hg'
    rw [Bool.or_eq_true, beq_iff_eq, Bool.not_eq_true', ← Bool.not_eq_true,
      isSuffixOf_iff_suffix] at this
    exact this.resolve_right fun hno => hno hsuffix
  have hff : f = f' := by
    have hs : js "." ++ f <:+ n ++ (js "." ++ f) := suffix_append _ _
    have hs' : js "." ++ f' <:+ n ++ (js "." ++ f) := hcancel ▸ suffix_append _ _
    rcases suffix_or_suffix_of_suffix hs hs' with hsuf | hsuf
    · exact happart hf hf' hsuf
    · exact (happart hf' hf hsuf).symm
  subst hff
  exact ⟨append_cancel_right hcancel, rfl⟩

def Router.fields (r : Router) : List JsString :=
  [js "rule", js "entrypoints", js "service"] ++
    (r.tls.toList.flatMap fun t => js "tls" :: (t.certresolver.toList.map fun _ =>
      js "tls.certresolver") ++ t.main.toList.flatMap fun _ =>
        [js "tls.domains[0].main", js "tls.domains[0].sans"]) ++
    if r.middlewares = [] then [] else [js "middlewares"]

theorem Router.labels_keys (service : JsString) (r : Router) :
    (r.labels service).map Prod.fst = r.fields.map (routerKey r.name) := by
  obtain ⟨name, hosts, entrypoint, tls, middlewares⟩ := r
  rcases tls with _ | ⟨_ | resolver, _ | main⟩ <;>
    by_cases hm : middlewares = [] <;> simp [Router.labels, Router.fields, Tls.labels, hm]

theorem Router.fields_sublist (r : Router) : r.fields.Sublist routerFields := by
  obtain ⟨name, hosts, entrypoint, tls, middlewares⟩ := r
  rcases tls with _ | ⟨_ | resolver, _ | main⟩ <;>
    by_cases hm : middlewares = [] <;>
    simp only [Router.fields, hm, Option.toList_some, Option.toList_none, flatMap_cons,
      flatMap_nil, map_cons, map_nil, if_true, if_false] <;>
    decide

theorem routerFields_nodup : routerFields.Nodup := by decide

theorem routerLabels_keys_nodup {service : JsString} {rs : List Router}
    (h : (rs.map Router.name).Nodup) :
    ((rs.flatMap (Router.labels service)).map Prod.fst).Nodup := by
  rw [map_flatMap, nodup_flatMap]
  refine ⟨fun r _ => ?_, ?_⟩
  · rw [Router.labels_keys]
    refine Nodup.map_on ?_ (routerFields_nodup.sublist r.fields_sublist)
    intro f hf f' hf' heq
    exact (routerKey_inj (r.fields_sublist.subset hf) (r.fields_sublist.subset hf') heq).2
  · rw [Nodup, pairwise_map] at h
    refine h.imp fun {r r'} hne => ?_
    intro k hk hk'
    simp only [Router.labels_keys, mem_map] at hk hk'
    obtain ⟨f, hf, rfl⟩ := hk
    obtain ⟨f', hf', heq⟩ := hk'
    exact hne (routerKey_inj (r'.fields_sublist.subset hf') (r.fields_sublist.subset hf) heq).1.symm

/-- Texts that begin differently differ. -/
theorem append_ne_append {p q : JsString} (h : ¬ p <+: q) (h' : ¬ q <+: p) (x y : JsString) :
    p ++ x ≠ q ++ y := by
  intro heq
  rcases prefix_or_prefix_of_prefix (prefix_append p x)
    (heq ▸ prefix_append q y) with hpq | hqp
  · exact h hpq
  · exact h' hqp

def otherLabels (routerName : JsString) (opts : LabelOptions) (domains : List RoutedDomain)
    (port : Nat) : List (JsString × JsString) :=
  [(js "traefik.enable", js "true"),
    (js "traefik.http.services." ++ (routerName ++ js ".loadbalancer.server.port"),
      js (toString port))] ++
    retryLabels routerName opts ++ redirectLabels routerName opts domains

/-- What the keys of the middleware definitions add to the router's name. -/
def retryTails : List JsString :=
  [js "-retry" ++ (js "." ++ js "retry.attempts"),
    js "-retry" ++ (js "." ++ js "retry.initialinterval")]

def redirectTails : List JsString :=
  [js "-https" ++ (js "." ++ js "redirectscheme.scheme"),
    js "-https" ++ (js "." ++ js "redirectscheme.permanent"),
    js "-https" ++ (js "." ++ js "redirectscheme.port")]

def otherKeys (routerName : JsString) : List JsString :=
  [js "traefik.enable",
    js "traefik.http.services." ++ (routerName ++ js ".loadbalancer.server.port")] ++
    (retryTails ++ redirectTails).map fun t => js "traefik.http.middlewares." ++ (routerName ++ t)

theorem otherLabels_keys_sublist (routerName : JsString) (opts : LabelOptions)
    (domains : List RoutedDomain) (port : Nat) :
    ((otherLabels routerName opts domains port).map Prod.fst).Sublist (otherKeys routerName) := by
  rw [otherLabels, otherKeys, map_append, map_append, map_append,
    append_assoc]
  refine Sublist.append (Sublist.refl _) (Sublist.append ?_ ?_)
  · rw [retryLabels]
    split
    · simp [retryTails, middlewareDefKey, retryName]
    · exact nil_sublist _
  · rw [redirectLabels]
    split
    · exact nil_sublist _
    · simp [redirectTails, middlewareDefKey]

/-- A key of its own kind: neither text can be the beginning of the other. -/
theorem enable_ne {q : JsString} (h : ¬ js "traefik.enable" <+: q)
    (h' : ¬ q <+: js "traefik.enable") (x : JsString) : js "traefik.enable" ≠ q ++ x := by
  have := append_ne_append h h' [] x
  rwa [append_nil] at this

theorem defTails_nodup : (retryTails ++ redirectTails).Nodup := by decide

theorem otherKeys_nodup (routerName : JsString) : (otherKeys routerName).Nodup := by
  have hservices : js "traefik.enable" ≠
      js "traefik.http.services." ++ (routerName ++ js ".loadbalancer.server.port") :=
    enable_ne (by decide) (by decide) _
  refine nodup_append.mpr ⟨by simpa using hservices, ?_, ?_⟩
  · refine defTails_nodup.map fun t t' heq => ?_
    exact append_cancel_left (append_cancel_left heq)
  · rintro k hk k' hk' rfl
    obtain ⟨t, -, rfl⟩ := mem_map.mp hk'
    rcases mem_cons.mp hk with h | hk
    · exact enable_ne (by decide) (by decide) _ h.symm
    · exact append_ne_append (by decide) (by decide) _ _ (mem_singleton.mp hk).symm

theorem otherKeys_not_router {routerName k name field : JsString} (hk : k ∈ otherKeys routerName) :
    k ≠ routerKey name field := by
  rcases mem_append.mp hk with hk | hk
  · rcases mem_cons.mp hk with rfl | hk
    · exact enable_ne (by decide) (by decide) _
    · rw [mem_singleton.mp hk]
      exact append_ne_append (by decide) (by decide) _ _
  · obtain ⟨t, -, rfl⟩ := mem_map.mp hk
    exact append_ne_append (by decide) (by decide) _ _

variable {r : Router}

section Written
variable {sha1 : JsString → JsString} {routerName : JsString} {opts : LabelOptions}
  {domains : List RoutedDomain} {port : Nat}

variable (sha1 routerName opts domains port) in
/-- The labels are those of the routers and the others. -/
theorem assignments_perm :
    (assignments sha1 routerName opts domains port).Perm
      (otherLabels routerName opts domains port ++
        (routers sha1 routerName opts domains).flatMap (Router.labels routerName)) := by
  rw [perm_iff_count]
  intro label
  simp only [assignments, otherLabels, routers, flatMap_append, count_append]
  omega

/-- **No label is written twice.** -/
theorem assignments_keys_nodup (hsha : IsHexDigest sha1)
    (hnd : (domains.map RoutedDomain.host).Nodup) (hapart : HashesApart sha1 domains) :
    ((assignments sha1 routerName opts domains port).map Prod.fst).Nodup := by
  have hperm := (assignments_perm sha1 routerName opts domains port).map Prod.fst
  rw [hperm.nodup_iff, map_append]
  have hother := otherLabels_keys_sublist routerName opts domains port
  refine nodup_append.mpr ⟨(otherKeys_nodup routerName).sublist hother,
    routerLabels_keys_nodup (names_nodup hsha hnd hapart), ?_⟩
  rintro k hk k' hk' rfl
  obtain ⟨label, hlabel, rfl⟩ := mem_map.mp hk'
  obtain ⟨r, -, hr⟩ := mem_flatMap.mp hlabel
  have hkey : label.1 ∈ r.fields.map (routerKey r.name) := by
    rw [← Router.labels_keys routerName]
    exact mem_map_of_mem hr
  obtain ⟨f, -, hf⟩ := mem_map.mp hkey
  exact otherKeys_not_router (hother.subset hk) hf.symm

theorem get_routerLabel (hsha : IsHexDigest sha1) (hnd : (domains.map RoutedDomain.host).Nodup)
    (hapart : HashesApart sha1 domains) (hr : r ∈ routers sha1 routerName opts domains)
    {label : JsString × JsString} (hlabel : label ∈ r.labels routerName) :
    Assoc.get (buildLabels sha1 routerName opts domains port) label.1 = some label.2 := by
  have hne : domains ≠ [] := by
    rintro rfl
    obtain ⟨s, hs, -⟩ := Grouping.exists_of_mem_right (routers_fit _ _ hnd) hr
    obtain ⟨d, hd, -⟩ := (mem_slots hnd).mp hs
    cases hd
  have hmem : label ∈ (assignments sha1 routerName opts domains port).reverse := by
    rw [mem_reverse, (assignments_perm ..).mem_iff]
    exact mem_append_right _ (mem_flatMap.mpr ⟨r, hr, hlabel⟩)
  have hkeys : ((assignments sha1 routerName opts domains port).reverse.map Prod.fst).Nodup := by
    rw [map_reverse, nodup_reverse]
    exact assignments_keys_nodup hsha hnd hapart
  rw [buildLabels, if_neg hne, Assoc.get_setAll, Assoc.get_of_mem hkeys hmem]
  rfl

theorem router_of_get {name field value : JsString}
    (h : Assoc.get (buildLabels sha1 routerName opts domains port) (routerKey name field) =
      some value) :
    ∃ r ∈ routers sha1 routerName opts domains, (routerKey name field, value) ∈
      r.labels routerName := by
  rw [buildLabels] at h
  split at h
  · cases h
  · rw [Assoc.get_setAll, Assoc.get_nil, Option.or_none] at h
    have hmem := mem_reverse.mp (Assoc.mem_of_get h)
    rw [(assignments_perm ..).mem_iff, mem_append] at hmem
    rcases hmem with hother | hrouter
    · have hkey := (otherLabels_keys_sublist routerName opts domains port).subset
        (mem_map_of_mem hother)
      exact absurd rfl (otherKeys_not_router hkey)
    · exact mem_flatMap.mp hrouter

end Written

/-! ## The partition -/

/-- The certificate a websecure router has to use for a domain: none of its own for an
uploaded one, DNS-01 (with the wildcard base, if any) where the domain asks for it and the
proxy has it, ACME otherwise. -/
def tlsFor (opts : LabelOptions) (d : RoutedDomain) : Tls :=
  if d.customCert then ⟨none, none⟩
  else if opts.dnsResolver && d.dns.isSome then
    ⟨some dnsCertResolver, if mainOf d = [] then none else some (mainOf d)⟩
  else ⟨some certResolver, none⟩

def Router.Serves (r : Router) (entrypoint host : JsString) : Prop :=
  r.entrypoint = entrypoint ∧ host ∈ r.hosts

section Partition
variable {sha1 : JsString → JsString} {routerName : JsString} {opts : LabelOptions}
  {domains : List RoutedDomain}

theorem webSlot_entrypoint (opts : LabelOptions) (d : RoutedDomain) :
    (webSlot opts d).entrypoint = web := by
  rw [webSlot]
  split <;> rfl

theorem secureSlot_entrypoint (h : secureSlot opts d = some s) :
    s.entrypoint = websecure ∧ s.tls = some (tlsFor opts d) := by
  rw [secureSlot] at h
  rw [tlsFor]
  split at h
  · cases h
  · split at h
    · obtain rfl := Option.some.inj h
      rename_i hc
      exact ⟨rfl, by rw [if_pos hc]; rfl⟩
    · rename_i hc
      rw [if_neg hc]
      split at h
      · obtain rfl := Option.some.inj h
        rename_i hdns
        exact ⟨rfl, by rw [if_pos hdns]; rfl⟩
      · obtain rfl := Option.some.inj h
        rename_i hdns
        exact ⟨rfl, by rw [if_neg hdns]; rfl⟩

theorem secureSlot_chain (h : secureSlot opts d = some s) :
    s.chain routerName opts = chainOf routerName opts (middlewaresOf d) := by
  rw [secureSlot] at h
  rw [← refsOf_middlewareKey d]
  split at h
  · cases h
  · split at h
    · exact Option.some.inj h ▸ rfl
    · split at h <;> exact Option.some.inj h ▸ rfl

theorem web_ne_websecure : web ≠ websecure := by decide

theorem on_web (hon : On opts d s) (h : s.entrypoint = web) : s = webSlot opts d := by
  rcases hon with hon | hon
  · exact hon.symm
  · have := (secureSlot_entrypoint hon).1
    exact absurd (h.symm.trans this) web_ne_websecure

theorem on_websecure (hon : On opts d s)
    (h : s.entrypoint = websecure) : secureSlot opts d = some s := by
  rcases hon with hon | hon
  · have := hon ▸ webSlot_entrypoint opts d
    exact absurd (this.symm.trans h) web_ne_websecure
  · exact hon

theorem Fits.host_iff (hnd : (domains.map RoutedDomain.host).Nodup) (hd : d ∈ domains)
    (hr : Fits sha1 routerName opts domains s r) : d.host ∈ r.hosts ↔ On opts d s := by
  rw [hr.hosts]
  constructor
  · rintro ⟨d', hd', hhost, hon⟩
    rwa [← inj_on_of_nodup_map hnd hd' hd hhost]
  · intro hon
    exact ⟨d, hd, rfl, hon⟩

/-- The routers of a domain are those of its slots. -/
theorem serves_iff (hnd : (domains.map RoutedDomain.host).Nodup) (hd : d ∈ domains)
    (hr : Fits sha1 routerName opts domains s r) :
    (r.Serves web d.host ↔ s = webSlot opts d) ∧
      (r.Serves websecure d.host ↔ secureSlot opts d = some s) := by
  rw [Router.Serves, Router.Serves, hr.host_iff hnd hd, hr.entrypoint]
  refine ⟨⟨fun h => on_web h.2 h.1, ?_⟩, ⟨fun h => on_websecure h.2 h.1, fun h => ?_⟩⟩
  · rintro rfl
    exact ⟨webSlot_entrypoint opts d, .inl rfl⟩
  · exact ⟨(secureSlot_entrypoint h).1, .inr h⟩

variable (routerName) in
/-- A slot in use has exactly one router. -/
theorem existsUnique_router (hsha : IsHexDigest sha1) (hnd : (domains.map RoutedDomain.host).Nodup)
    (hapart : HashesApart sha1 domains) (hs : ∃ d ∈ domains, On opts d s) :
    ∃ r ∈ routers sha1 routerName opts domains, Fits sha1 routerName opts domains s r ∧
      ∀ r' ∈ routers sha1 routerName opts domains, Fits sha1 routerName opts domains s r' →
        r' = r := by
  obtain ⟨r, hr, hfits⟩ := Grouping.exists_of_mem_left
    (routers_fit sha1 routerName hnd) ((mem_slots hnd).mpr hs)
  refine ⟨r, hr, hfits, fun r' hr' hfits' => ?_⟩
  exact inj_on_of_nodup_map (names_nodup hsha hnd hapart) hr' hr
    (hfits'.name.trans hfits.name.symm)

/-- Every router is the one of a slot in use. -/
theorem exists_slot (hnd : (domains.map RoutedDomain.host).Nodup)
    (hr : r ∈ routers sha1 routerName opts domains) :
    ∃ s, Fits sha1 routerName opts domains s r := by
  obtain ⟨s, -, hfit⟩ := Grouping.exists_of_mem_right (routers_fit _ _ hnd) hr
  exact ⟨s, hfit⟩

theorem tail_eq_redirect : s.tail sha1 = js "-redirect" ↔ s = .redirect := by
  refine ⟨fun h => ?_, fun h => h ▸ rfl⟩
  have hc := Slot.tail_class sha1 s
  have hrs : cu 'r' ≠ cu 's' := by decide
  have hrm : cu 'r' ≠ cu 'm' := by decide
  have hr : (js "-redirect")[1]? = some (cu 'r') := rfl
  rw [h] at hc
  cases s <;> dsimp only at hc <;> first | rfl | (exfalso; grind)

theorem exists_secureSlot : (∃ s, secureSlot opts d = some s) ↔ d.https = true := by
  rw [secureSlot]
  cases d.https
  · simp
  · simp only [Bool.not_true, Bool.false_eq_true, if_false, iff_true]
    split
    · exact ⟨_, rfl⟩
    · split <;> exact ⟨_, rfl⟩

theorem existsUnique_websecure (hsha : IsHexDigest sha1)
    (hnd : (domains.map RoutedDomain.host).Nodup) (hapart : HashesApart sha1 domains)
    (hd : d ∈ domains) (hhttps : d.https = true) :
    ∃! r, r ∈ routers sha1 routerName opts domains ∧ r.Serves websecure d.host := by
  obtain ⟨s, hs⟩ := exists_secureSlot.mpr hhttps
  obtain ⟨r, hr, hfit, hunique⟩ := existsUnique_router routerName hsha hnd hapart
    ⟨d, hd, .inr hs⟩
  refine ⟨r, ⟨hr, (serves_iff hnd hd hfit).2.mpr hs⟩, ?_⟩
  rintro r' ⟨hr', hserves⟩
  obtain ⟨s', hfit'⟩ := exists_slot hnd hr'
  have hs' := (serves_iff hnd hd hfit').2.mp hserves
  exact hunique r' hr' (Option.some.inj (hs'.symm.trans hs) ▸ hfit')

theorem existsUnique_web (hsha : IsHexDigest sha1) (hnd : (domains.map RoutedDomain.host).Nodup)
    (hapart : HashesApart sha1 domains) (hd : d ∈ domains) :
    ∃! r, r ∈ routers sha1 routerName opts domains ∧ r.Serves web d.host := by
  obtain ⟨r, hr, hfit, hunique⟩ := existsUnique_router routerName hsha hnd hapart
    ⟨d, hd, .inl (rfl : webSlot opts d = _)⟩
  refine ⟨r, ⟨hr, (serves_iff hnd hd hfit).1.mpr rfl⟩, ?_⟩
  rintro r' ⟨hr', hserves⟩
  obtain ⟨s', hfit'⟩ := exists_slot hnd hr'
  exact hunique r' hr' ((serves_iff hnd hd hfit').1.mp hserves ▸ hfit')

theorem tls_of_serves (hnd : (domains.map RoutedDomain.host).Nodup) (hd : d ∈ domains)
    (hr : r ∈ routers sha1 routerName opts domains)
    (hserves : r.Serves websecure d.host) : d.https = true ∧ r.tls = some (tlsFor opts d) := by
  obtain ⟨s, hfit⟩ := exists_slot hnd hr
  have hs := (serves_iff hnd hd hfit).2.mp hserves
  exact ⟨exists_secureSlot.mp ⟨s, hs⟩,
    hfit.tls.trans (secureSlot_entrypoint hs).2⟩

theorem redirect_iff (hnd : (domains.map RoutedDomain.host).Nodup) (hd : d ∈ domains)
    (hr : r ∈ routers sha1 routerName opts domains) (hserves : r.Serves web d.host) :
    r.name = routerName ++ js "-redirect" ↔ redirected opts d = true := by
  obtain ⟨s, hfit⟩ := exists_slot hnd hr
  have hslot := (serves_iff hnd hd hfit).1.mp hserves
  rw [hfit.name, append_cancel_left_eq, tail_eq_redirect, hslot, webSlot]
  cases redirected opts d <;> simp

theorem chain_of_host (hnd : (domains.map RoutedDomain.host).Nodup) (hd : d ∈ domains)
    (hr : r ∈ routers sha1 routerName opts domains) (hhost : d.host ∈ r.hosts)
    (hname : r.name ≠ routerName ++ js "-redirect") :
    r.middlewares = chainOf routerName opts (middlewaresOf d) := by
  obtain ⟨s, hfit⟩ := exists_slot hnd hr
  rw [hfit.name, Ne, append_cancel_left_eq, tail_eq_redirect] at hname
  rw [hfit.middlewares]
  rcases (hfit.host_iff hnd hd).mp hhost with hweb | hsecure
  · rw [webSlot] at hweb
    split at hweb
    · exact absurd hweb.symm hname
    · obtain rfl := hweb
      rw [Slot.chain, refsOf_middlewareKey]
  · exact secureSlot_chain hsecure

end Partition

/-- **The routers partition the traffic.**  Each https host is in exactly one `websecure`
router, with the certificate its domain asks for; each host is in exactly one `web`
router, the redirect router exactly when the domain is sent to https; plain hosts are in no
`websecure` router; every other router's chain is the host's valid middlewares in order,
behind the retry if there is one; and the label map holds the labels of these routers as
they were written, and of no others. -/
theorem buildLabels_partition (sha1 : JsString → JsString) (hsha : IsHexDigest sha1)
    (routerName : JsString) (port : Nat) (opts : LabelOptions) (domains : List RoutedDomain)
    (hnd : (domains.map RoutedDomain.host).Nodup) (hapart : HashesApart sha1 domains) :
    let rs := routers sha1 routerName opts domains
    (∀ d ∈ domains, d.https = true → ∃! r, r ∈ rs ∧ r.Serves websecure d.host) ∧
    (∀ d ∈ domains, ∀ r ∈ rs, r.Serves websecure d.host →
      d.https = true ∧ r.tls = some (tlsFor opts d)) ∧
    (∀ d ∈ domains, ∃! r, r ∈ rs ∧ r.Serves web d.host) ∧
    (∀ d ∈ domains, ∀ r ∈ rs, r.Serves web d.host →
      (r.name = routerName ++ js "-redirect" ↔
        d.https = true ∧ (d.customCert = true ∨ opts.acme = true))) ∧
    (∀ d ∈ domains, ∀ r ∈ rs, d.host ∈ r.hosts → r.name ≠ routerName ++ js "-redirect" →
      r.middlewares = (if opts.retry then [routerName ++ js "-retry"] else []) ++
        middlewaresOf d) ∧
    (∀ d ∈ domains, (middlewaresOf d).Nodup ∧ (middlewaresOf d).Sublist d.middlewares ∧
      ∀ m, m ∈ middlewaresOf d ↔ m ∈ d.middlewares ∧ isMiddlewareRef m = true) ∧
    ((rs.flatMap (Router.labels routerName)).map Prod.fst).Nodup ∧
    (∀ r ∈ rs, ∀ label ∈ r.labels routerName,
      Assoc.get (buildLabels sha1 routerName opts domains port) label.1 = some label.2) ∧
    (∀ name field value, Assoc.get (buildLabels sha1 routerName opts domains port)
      (routerKey name field) = some value →
        ∃ r ∈ rs, (routerKey name field, value) ∈ r.labels routerName) := by
  intro rs
  refine ⟨fun d hd => existsUnique_websecure hsha hnd hapart hd,
    fun d hd r hr => tls_of_serves hnd hd hr, fun d hd => existsUnique_web hsha hnd hapart hd,
    fun d hd r hr hserves => ?_, fun d hd r hr hhost hname => ?_, fun d _ => ?_,
    routerLabels_keys_nodup (names_nodup hsha hnd hapart),
    fun r hr label => get_routerLabel hsha hnd hapart hr, fun name field value => router_of_get⟩
  · rw [redirect_iff hnd hd hr hserves, redirected, Bool.and_eq_true, Bool.or_eq_true]
  · rw [chain_of_host hnd hd hr hhost hname, chainOf]
    cases opts.retry <;> rfl
  · exact ⟨(middlewaresOf_spec d).1, (middlewaresOf_spec d).2.2, (middlewaresOf_spec d).2.1⟩

/-- SHA-1 on the two texts the domains below hash; elsewhere the digest of the empty text. -/
def sampleSha1 (v : JsString) : JsString :=
  if v = js "auth@file" then js "53c6c0471a6035f7cfb6941c876519ce7ac291d0"
  else if v = js "example.com" then js "0caaf24ab1a0c33440c06afe99df986365b0781f"
  else js "da39a3ee5e6b4b0d3255bfef95601890afd80709"

theorem sampleSha1_isHexDigest : IsHexDigest sampleSha1 := by
  refine ⟨fun v => ?_, fun v => all_eq_true.mp ?_⟩
  · rw [sampleSha1]
    split
    · decide
    · split <;> decide
  · rw [sampleSha1]
    split
    · decide
    · split <;> decide

/-- A wildcard host with a middleware, one with an uploaded certificate and a plain one. -/
def sampleDomains : List RoutedDomain :=
  [⟨js "a.example.com", true, false, some (some (js "example.com")), [js "auth@file", js "x@docker"]⟩,
    ⟨js "b.example.com", true, true, none, []⟩, ⟨js "c.example.com", false, false, none, []⟩]

theorem buildLabels_partition_sample :
    ∃! r, r ∈ routers sampleSha1 (js "shop") ⟨443, true, true, true⟩ sampleDomains ∧
      r.Serves websecure (js "a.example.com") :=
  (buildLabels_partition sampleSha1 sampleSha1_isHexDigest (js "shop") 3000
    ⟨443, true, true, true⟩ sampleDomains (by decide) ⟨by decide, by decide⟩).1
    _ List.mem_cons_self rfl

end Aoox.Proxy
