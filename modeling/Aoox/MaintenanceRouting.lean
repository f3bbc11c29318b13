import Aoox.ProxyLabels

/-! # Maintenance routing

While an application is in maintenance its hosts are answered by routers of a dynamic
configuration file that outrank the routers of the container's labels.  The file is
written from the same domains by a second classification, which is meant to mirror
`buildLabels`: a host the labels serve on an entry point that the file does not cover
there stays reachable.

In the slots of the labels, the file has the secure slot of every redirected domain and
the plain slot of every other one (`config_fits`).  The labels also give an https domain
that is *not* redirected (no ACME, no uploaded certificate) a `websecure` router, which
the file misses; that is the only difference (`mirrors_iff`).  Names with colliding
hashes do not matter: both maps lose the same routers.
-/
open List Option
namespace Aoox.Maintenance

open JsString Proxy

/-! ## The configuration -/

/-- `HOST`: lower-case letters, digits, dots and dashes. -/
def isHost (host : JsString) : Bool :=
  !host.isEmpty && host.all fun c => isRefUnit c || c = cu '.'

/-- A router of the file; its rule is `Proxy.rule` of its hosts. -/
structure FileRouter where
  (hosts entryPoints : List JsString)
  service : JsString
  middlewares : List JsString
  priority : Nat
  tls : Option Tls

/-- `http.routers`, and the header middleware with the application it names. -/
structure DynamicConfig where
  routers : List (JsString × FileRouter)
  header : JsString × JsString

def maintenancePriority : Nat := 1000000

def maintenanceService : JsString := js "aoox-maintenance@file"

section Config
variable (sha1 : JsString → JsString) (appId : JsString)

def groupByMiddlewares (domains : List RoutedDomain) : List Group := byMiddlewares sha1 domains

def base : JsString := js "aoox-maint-" ++ appId

def headerName : JsString := base appId ++ js "-hdr"

/-- The routers of one class of hosts. -/
def addGroups (group : List RoutedDomain) (cls entrypoint : JsString) (tls : Option Tls) :
    List (JsString × FileRouter) :=
  (groupByMiddlewares sha1 group).map fun g =>
    (base appId ++ (js "-" ++ (cls ++ g.suffix)),
      ⟨g.hosts, [entrypoint], maintenanceService,
        g.middlewares ++ [headerName appId ++ js "@file"], maintenancePriority, tls⟩)

variable (acme dns : Bool) (hosts : List RoutedDomain)

def dnsSecure : List RoutedDomain :=
  hosts.filter fun d => acme && dns && d.https && !d.customCert && d.dns.isSome

def acmeSecure : List RoutedDomain :=
  hosts.filter fun d => acme && d.https && !d.customCert && d ∉ dnsSecure acme dns hosts

def custom : List RoutedDomain := hosts.filter fun d => d.https && d.customCert

def plain : List RoutedDomain :=
  hosts.filter fun d => d ∉ acmeSecure acme dns hosts && d ∉ dnsSecure acme dns hosts &&
    d ∉ custom hosts

/-- The class of a wildcard base. -/
def dnsClass (main : JsString) : JsString :=
  if main = [] then js "secure-dns" else js "secure-dns-" ++ shortHash sha1 main

/-- The assignments `routers[name] = ...` in their order. -/
def routerEntries : List (JsString × FileRouter) :=
  addGroups sha1 appId (plain acme dns hosts) (js "web") web none ++
    addGroups sha1 appId (acmeSecure acme dns hosts) (js "secure") websecure
      (some ⟨some certResolver, none⟩) ++
    (((dnsSecure acme dns hosts).map mainOf).eraseDups.flatMap fun main =>
      addGroups sha1 appId ((dnsSecure acme dns hosts).filter fun d => mainOf d = main)
        (dnsClass sha1 main) websecure
        (some ⟨some dnsCertResolver, if main = [] then none else some main⟩)) ++
    addGroups sha1 appId (custom hosts) (js "secure-custom") websecure (some ⟨none, none⟩)

def appDynamicConfig (domains : List RoutedDomain) : Option DynamicConfig :=
  let hosts := domains.filter fun d => isHost d.host
  if hosts = [] then none
  else some ⟨Assoc.setAll [] (routerEntries sha1 appId acme dns hosts), (headerName appId, appId)⟩

/-- The routers of the file, none without hosts. -/
def fileRouters (domains : List RoutedDomain) : List (JsString × FileRouter) :=
  ((appDynamicConfig sha1 appId acme dns domains).map DynamicConfig.routers).getD []

end Config

/-! ## Mirroring -/

section Mirrors
variable (sha1 : JsString → JsString) (routerName appId : JsString) (port : Nat)
  (opts : LabelOptions) (domains : List RoutedDomain)

/-- The label map describes the router: it holds all of its labels. -/
def Described (r : Router) : Prop :=
  r ∈ routers sha1 routerName opts domains ∧ ∀ label ∈ r.labels routerName,
    Assoc.get (buildLabels sha1 routerName opts domains port) label.1 = some label.2

/-- **The file mirrors the labels.**  Every pair of an entry point and a host that a
router of the labels serves, the redirect router aside, is matched by a router of the file
with the same certificate and the same operator middlewares; and no host that the labels
redirect to https has a `web` router in the file. -/
structure Mirrors : Prop where
  covered : ∀ r, Described sha1 routerName port opts domains r →
    r.name ≠ routerName ++ js "-redirect" → ∀ h ∈ r.hosts,
      ∃ e ∈ fileRouters sha1 appId opts.acme opts.dnsResolver domains,
        e.2.entryPoints = [r.entrypoint] ∧ h ∈ e.2.hosts ∧ e.2.tls = r.tls ∧
        ∃ operators, r.middlewares = chainOf routerName opts operators ∧
          e.2.middlewares = operators ++ [headerName appId ++ js "@file"]
  redirected : ∀ r, Described sha1 routerName port opts domains r →
    r.name = routerName ++ js "-redirect" → ∀ h ∈ r.hosts,
      ∀ e ∈ fileRouters sha1 appId opts.acme opts.dnsResolver domains,
        web ∈ e.2.entryPoints → h ∉ e.2.hosts

end Mirrors

/-! ## The slots of the file -/

/-- The slot of a domain in the file: the secure one if the domain is redirected, the
plain one otherwise. -/
def InFile (opts : LabelOptions) (d : RoutedDomain) (s : Slot) : Prop :=
  if Proxy.redirected opts d then secureSlot opts d = some s else webSlot opts d = s

def fileTail (sha1 : JsString → JsString) : Slot → JsString
  | .plain key => js "web" ++ middlewareSuffix sha1 key
  | .redirect => []
  | .secure key => js "secure" ++ middlewareSuffix sha1 key
  | .dns main key => dnsClass sha1 main ++ middlewareSuffix sha1 key
  | .custom key => js "secure-custom" ++ middlewareSuffix sha1 key

def operatorsOf : Slot → List JsString
  | .redirect => []
  | .plain key => refsOf key
  | .secure key => refsOf key
  | .dns _ key => refsOf key
  | .custom key => refsOf key

variable {key : JsString} {s : Slot}

section Slots
variable (sha1 : JsString → JsString) (appId : JsString) (opts : LabelOptions)
  (domains : List RoutedDomain)

structure FileFits (s : Slot) (e : JsString × FileRouter) : Prop where
  name : e.1 = base appId ++ (js "-" ++ fileTail sha1 s)
  entryPoints : e.2.entryPoints = [s.entrypoint]
  tls : e.2.tls = s.tls
  middlewares : e.2.middlewares = operatorsOf s ++ [headerName appId ++ js "@file"]
  hosts : ∀ h, h ∈ e.2.hosts ↔ ∃ d ∈ domains, d.host = h ∧ InFile opts d s

variable {sha1 appId opts domains}

theorem addGroups_fits {mk : JsString → Slot} {part : List RoutedDomain} {cls entrypoint : JsString}
    {tls : Option Tls}
    (htail : ∀ key, fileTail sha1 (mk key) = cls ++ middlewareSuffix sha1 key)
    (hentry : ∀ key, (mk key).entrypoint = entrypoint) (htls : ∀ key, (mk key).tls = tls)
    (hops : ∀ key, operatorsOf (mk key) = refsOf key)
    (hpart : ∀ d key, (d ∈ domains ∧ InFile opts d (mk key)) ↔ (d ∈ part ∧ middlewareKey d = key)) :
    Forall₂ (FileFits sha1 appId opts domains) (slotsOf mk part)
      (addGroups sha1 appId part cls entrypoint tls) := by
  rw [slotsOf, addGroups, groupByMiddlewares, byMiddlewares_eq, List.map_map,
    forall₂_map_left_iff, forall₂_map_right_iff, List.forall₂_same]
  intro key _
  refine ⟨?_, ?_, (htls key).symm, ?_, fun h => ?_⟩
  · simp [htail]
  · simp [hentry]
  · simp [hops]
  · simp only [Function.comp, List.mem_map, mem_filter, decide_eq_true_eq]
    constructor
    · rintro ⟨d, hd, rfl⟩
      obtain ⟨hmem, hin⟩ := (hpart d key).mpr hd
      exact ⟨d, hmem, rfl, hin⟩
    · rintro ⟨d, hmem, rfl, hin⟩
      exact ⟨d, (hpart d key).mp ⟨hmem, hin⟩, rfl⟩

theorem mem_dnsSecure {d : RoutedDomain} :
    d ∈ dnsSecure opts.acme opts.dnsResolver domains ↔ d ∈ domains ∧ opts.acme = true ∧
      d.https = true ∧ d.customCert = false ∧ (opts.dnsResolver && d.dns.isSome) = true := by
  rw [dnsSecure, mem_filter]
  simp only [Bool.and_eq_true, Bool.not_eq_true']
  tauto

theorem mem_acmeSecure {d : RoutedDomain} :
    d ∈ acmeSecure opts.acme opts.dnsResolver domains ↔ d ∈ domains ∧ opts.acme = true ∧
      d.https = true ∧ d.customCert = false ∧ (opts.dnsResolver && d.dns.isSome) = false := by
  rw [acmeSecure, mem_filter, and_congr_right_iff]
  intro hd
  grind [mem_dnsSecure]

theorem mem_custom {d : RoutedDomain} :
    d ∈ custom domains ↔ d ∈ domains ∧ d.https = true ∧ d.customCert = true := by
  simp [custom]

theorem mem_plain {d : RoutedDomain} : d ∈ plain opts.acme opts.dnsResolver domains ↔
      d ∈ domains ∧ Proxy.redirected opts d = false := by
  rw [plain, mem_filter, and_congr_right_iff]
  intro hd
  grind [mem_acmeSecure, mem_dnsSecure, mem_custom, Proxy.redirected]

theorem inFile_plain {d : RoutedDomain} :
    InFile opts d (.plain key) ↔ Proxy.redirected opts d = false ∧ middlewareKey d = key := by
  grind [InFile, webSlot, secureSlot]

theorem not_inFile_redirect {d : RoutedDomain} : ¬ InFile opts d .redirect := by
  grind [InFile, webSlot, secureSlot]

theorem inFile_secure {d : RoutedDomain} :
    InFile opts d (.secure key) ↔ opts.acme = true ∧ d.https = true ∧ d.customCert = false ∧
      (opts.dnsResolver && d.dns.isSome) = false ∧ middlewareKey d = key := by
  grind [InFile, webSlot, secureSlot, Proxy.redirected]

theorem inFile_dns {d : RoutedDomain} {main : JsString} :
    InFile opts d (.dns main key) ↔ opts.acme = true ∧ d.https = true ∧ d.customCert = false ∧
      (opts.dnsResolver && d.dns.isSome) = true ∧ mainOf d = main ∧ middlewareKey d = key := by
  grind [InFile, webSlot, secureSlot, Proxy.redirected]

theorem inFile_custom {d : RoutedDomain} :
    InFile opts d (.custom key) ↔ d.https = true ∧ d.customCert = true ∧ middlewareKey d = key := by
  grind [InFile, webSlot, secureSlot, Proxy.redirected]

variable (opts domains)

def fileSlots : List Slot :=
  slotsOf .plain (plain opts.acme opts.dnsResolver domains) ++
    slotsOf .secure (acmeSecure opts.acme opts.dnsResolver domains) ++
    (((dnsSecure opts.acme opts.dnsResolver domains).map mainOf).eraseDups.flatMap fun main =>
      slotsOf (.dns main)
        ((dnsSecure opts.acme opts.dnsResolver domains).filter fun d => mainOf d = main)) ++
    slotsOf .custom (custom domains)

variable {opts domains}

/-- **One router of the file per slot of a domain in the file.** -/
theorem config_fits : Forall₂ (FileFits sha1 appId opts domains) (fileSlots opts domains)
      (routerEntries sha1 appId opts.acme opts.dnsResolver domains) := by
  refine rel_append (rel_append (rel_append ?_ ?_) ?_) ?_
  · refine addGroups_fits (fun _ => rfl) (fun _ => rfl) (fun _ => rfl) (fun _ => rfl) ?_
    intro d key
    rw [mem_plain, inFile_plain, and_assoc]
  · refine addGroups_fits (fun _ => rfl) (fun _ => rfl) (fun _ => rfl) (fun _ => rfl) ?_
    intro d key
    rw [mem_acmeSecure, inFile_secure]
    simp only [and_assoc]
  · have hsame : Forall₂ Eq ((dnsSecure opts.acme opts.dnsResolver domains).map mainOf).eraseDups
        ((dnsSecure opts.acme opts.dnsResolver domains).map mainOf).eraseDups :=
      List.forall₂_same.mpr fun _ _ => rfl
    refine rel_flatMap hsame ?_
    rintro main _ rfl
    refine addGroups_fits (fun _ => rfl) (fun _ => rfl) (fun _ => rfl) (fun _ => rfl) ?_
    intro d key
    rw [mem_filter, mem_dnsSecure, inFile_dns, decide_eq_true_eq]
    simp only [and_assoc]
  · refine addGroups_fits (fun _ => rfl) (fun _ => rfl) (fun _ => rfl) (fun _ => rfl) ?_
    intro d key
    rw [mem_custom, inFile_custom]
    simp only [and_assoc]

theorem mem_fileSlots : s ∈ fileSlots opts domains ↔ ∃ d ∈ domains, InFile opts d s := by
  rw [fileSlots, mem_append, mem_append, mem_append, mem_slotsOf, mem_slotsOf,
    mem_slotsOf, mem_flatMap]
  constructor
  · rintro (((⟨d, hd, rfl⟩ | ⟨d, hd, rfl⟩) | ⟨main, -, hs⟩) | ⟨d, hd, rfl⟩)
    · obtain ⟨hd, hr⟩ := mem_plain.mp hd
      exact ⟨d, hd, inFile_plain.mpr ⟨hr, rfl⟩⟩
    · obtain ⟨hd, h0, h1, h2, h3⟩ := mem_acmeSecure.mp hd
      exact ⟨d, hd, inFile_secure.mpr ⟨h0, h1, h2, h3, rfl⟩⟩
    · obtain ⟨d, hd, rfl⟩ := mem_slotsOf.mp hs
      obtain ⟨hd, hmain⟩ := mem_filter.mp hd
      obtain ⟨hd, h0, h1, h2, h3⟩ := mem_dnsSecure.mp hd
      exact ⟨d, hd, inFile_dns.mpr ⟨h0, h1, h2, h3, by simpa using hmain, rfl⟩⟩
    · obtain ⟨hd, h1, h2⟩ := mem_custom.mp hd
      exact ⟨d, hd, inFile_custom.mpr ⟨h1, h2, rfl⟩⟩
  · rintro ⟨d, hd, hin⟩
    cases s with
    | plain key =>
      obtain ⟨hr, rfl⟩ := inFile_plain.mp hin
      exact .inl (.inl (.inl ⟨d, mem_plain.mpr ⟨hd, hr⟩, rfl⟩))
    | redirect => exact absurd hin not_inFile_redirect
    | secure key =>
      obtain ⟨h0, h1, h2, h3, rfl⟩ := inFile_secure.mp hin
      exact .inl (.inl (.inr ⟨d, mem_acmeSecure.mpr ⟨hd, h0, h1, h2, h3⟩, rfl⟩))
    | dns main key =>
      obtain ⟨h0, h1, h2, h3, rfl, rfl⟩ := inFile_dns.mp hin
      have hmem := mem_dnsSecure.mpr ⟨hd, h0, h1, h2, h3⟩
      refine .inl (.inr ⟨mainOf d, mem_eraseDups.mpr (mem_map_of_mem hmem), ?_⟩)
      exact mem_slotsOf.mpr ⟨d, mem_filter.mpr ⟨hmem, by simp⟩, rfl⟩
    | custom key =>
      obtain ⟨h1, h2, rfl⟩ := inFile_custom.mp hin
      exact .inr ⟨d, mem_custom.mpr ⟨hd, h1, h2⟩, rfl⟩

/-- Two filters of a list that keep the same elements are the same. -/
theorem filter_eq_of_mem_iff {p q : RoutedDomain → Bool}
    (h : ∀ d, d ∈ domains.filter p ↔ d ∈ domains.filter q) :
    domains.filter p = domains.filter q := by
  refine filter_congr fun d hd => ?_
  have := h d
  rw [mem_filter, mem_filter, and_congr_right_iff] at this
  exact Bool.eq_iff_iff.mpr (this hd)

/-- The file lists its slots in the order of the labels. -/
theorem fileSlots_sublist (hnd : (domains.map RoutedDomain.host).Nodup) :
    (fileSlots opts domains).Sublist (slots opts domains) := by
  have hplain : plain opts.acme opts.dnsResolver domains =
      domains.filter fun d => d.host ∈ plainHosts opts domains := by
    refine filter_eq_of_mem_iff fun d => ?_
    rw [mem_plainPart hnd, ← mem_plain]
    rfl
  have hdns : dnsSecure opts.acme opts.dnsResolver domains =
      if opts.acme then dnsDomains opts domains else [] := by
    cases hacme : opts.acme
    · simp [dnsSecure]
    · rw [if_pos rfl, dnsDomains, dnsSecure]
      cases opts.dnsResolver <;> simp
  rw [fileSlots, slots, Grouping.collect_eq, flatMap_map, hplain, hdns]
  refine Sublist.append (Sublist.append (Sublist.append ?_ ?_) ?_) (Sublist.refl _)
  · exact sublist_append_left _ _
  · cases hacme : opts.acme
    · simp [slotsOf, acmeSecure]
    · have hsecure : acmeSecure opts.acme opts.dnsResolver domains =
          domains.filter fun d => d.https && !d.customCert &&
            d.host ∉ (dnsDomains opts domains).map RoutedDomain.host := by
        refine filter_eq_of_mem_iff fun d => ?_
        have hacme' := @mem_acmeSecure opts domains d
        rw [hacme, eq_self, true_and, ← mem_securePart hnd] at hacme'
        rw [← hacme', hacme]
        rfl
      rw [← hacme, hsecure]
  · cases hacme : opts.acme
    · simp
    · exact Sublist.refl _

end Slots

/-! ## Rules are read back -/

theorem backquote_not_mem {h : JsString} (hh : isHost h = true) : cu '`' ∉ h := by
  intro hmem
  have := (Bool.and_eq_true_iff.mp hh).2
  exact absurd (List.all_eq_true.mp this _ hmem) (by decide)

/-- **A rule determines its hosts.** -/
theorem rule_inj {hs hs' : List JsString} (hv : ∀ h ∈ hs, isHost h = true)
    (hv' : ∀ h ∈ hs', isHost h = true) (heq : rule hs = rule hs') : hs = hs' := by
  induction hs generalizing hs' with
  | nil =>
    cases hs' with
    | nil => rfl
    | cons h' hs' =>
      rw [rule_cons] at heq
      cases heq
  | cons h hs ih =>
    cases hs' with
    | nil =>
      rw [rule_cons] at heq
      cases heq
    | cons h' hs' =>
      rw [rule_cons, rule_cons] at heq
      obtain ⟨rfl, hrest⟩ := append_cons_inj (backquote_not_mem (hv h mem_cons_self))
        (backquote_not_mem (hv' h' mem_cons_self)) (append_cancel_left heq)
      replace hrest := (List.cons.inj hrest).2
      by_cases hnil : hs = []
      · by_cases hnil' : hs' = []
        · rw [hnil, hnil']
        · rw [if_pos hnil, if_neg hnil'] at hrest
          cases hrest
      · by_cases hnil' : hs' = []
        · rw [if_neg hnil, if_pos hnil'] at hrest
          cases hrest
        · rw [if_neg hnil, if_neg hnil'] at hrest
          rw [ih (fun x hx => hv x (mem_cons_of_mem _ hx))
            (fun x hx => hv' x (mem_cons_of_mem _ hx)) (append_cancel_left hrest)]

/-! ## Which routers survive -/

variable {r : Router}

section Survive
variable {sha1 : JsString → JsString} {routerName appId : JsString} {port : Nat}
  {opts : LabelOptions} {domains : List RoutedDomain}

/-- Labels that are not about a router say nothing under a router's key. -/
theorem get_other_eq_none (port : Nat) {labels : List (JsString × JsString)} {name field : JsString}
    (h : ∀ label ∈ labels, label ∈ otherLabels routerName opts domains port) :
    Assoc.get labels.reverse (routerKey name field) = none := by
  refine Assoc.get_reverse_eq_none fun label hlabel => ?_
  exact otherKeys_not_router ((otherLabels_keys_sublist routerName opts domains port).subset
    (mem_map_of_mem (h label hlabel)))

/-- Under a router's key the map holds what was last written about routers. -/
theorem get_routerKey (hne : domains ≠ []) (name field : JsString) :
    Assoc.get (buildLabels sha1 routerName opts domains port) (routerKey name field) =
      Assoc.get ((routers sha1 routerName opts domains).flatMap
        (Router.labels routerName)).reverse (routerKey name field) := by
  have hfirst : Assoc.get ([(js "traefik.enable", js "true"),
      (js "traefik.http.services." ++ (routerName ++ js ".loadbalancer.server.port"),
        js (toString port))] ++ retryLabels routerName opts).reverse (routerKey name field) =
      none := by
    refine @get_other_eq_none routerName opts domains port _ _ _ fun label h => ?_
    exact mem_append_left _ h
  have hredirect : Assoc.get (redirectLabels routerName opts domains).reverse
      (routerKey name field) = none := by
    refine @get_other_eq_none routerName opts domains port _ _ _ fun label h => ?_
    exact mem_append_right _ h
  rw [buildLabels, if_neg hne, Assoc.get_setAll, Assoc.get_nil, or_none]
  simp only [assignments, routers, List.flatMap_append, Assoc.get_reverse_append, hredirect,
    none_or]
  rw [← Assoc.get_reverse_append, hfirst, or_none]

/-- A router that no later one shares its name with is described. -/
theorem described_of_last {pre post : List Router} (hne : domains ≠ [])
    (hrs : routers sha1 routerName opts domains = pre ++ r :: post)
    (hlast : ∀ r' ∈ post, r'.name ≠ r.name) : Described sha1 routerName port opts domains r := by
  refine ⟨by rw [hrs]; simp, fun label hlabel => ?_⟩
  have hkey : label.1 ∈ r.fields.map (routerKey r.name) := by
    rw [← Router.labels_keys routerName]
    exact mem_map_of_mem hlabel
  obtain ⟨field, hfield, hkey⟩ := mem_map.mp hkey
  have hpost : Assoc.get (post.flatMap (Router.labels routerName)).reverse label.1 = none := by
    refine Assoc.get_reverse_eq_none fun label' hlabel' heq => ?_
    obtain ⟨r', hr', hin⟩ := mem_flatMap.mp hlabel'
    have hkey' : label'.1 ∈ r'.fields.map (routerKey r'.name) := by
      rw [← Router.labels_keys routerName]
      exact mem_map_of_mem hin
    obtain ⟨field', hfield', hkey'⟩ := mem_map.mp hkey'
    exact hlast r' hr' (routerKey_inj (r'.fields_sublist.subset hfield')
      (r.fields_sublist.subset hfield) (hkey'.trans (heq.trans hkey.symm))).1
  have hown : ((r.labels routerName).reverse.map Prod.fst).Nodup := by
    rw [map_reverse, nodup_reverse]
    simpa using @routerLabels_keys_nodup routerName [r] (by simp)
  rw [← hkey, get_routerKey hne, hkey, hrs, List.flatMap_append, Assoc.get_reverse_append,
    flatMap_cons, Assoc.get_reverse_append, hpost, none_or,
    Assoc.get_of_mem hown (mem_reverse.mpr hlabel)]
  rfl

/-- Slots with one name are on one entry point. -/
theorem entrypoint_of_tail {s' : Slot} (h : s.tail sha1 = s'.tail sha1) :
    s.entrypoint = s'.entrypoint := by
  have hc := Slot.tail_class sha1 s
  have hc' := Slot.tail_class sha1 s'
  have hrs : cu 'r' ≠ cu 's' := by decide
  have hsm : cu 's' ≠ cu 'm' := by decide
  rw [h] at hc
  cases s <;> cases s' <;> dsimp only at hc hc' <;> first | rfl | (exfalso; grind)

variable (sha1 routerName port) in
/-- The last slot of a name has a router the labels describe. -/
theorem exists_described (hnd : (domains.map RoutedDomain.host).Nodup)
    (hs : s ∈ slots opts domains) :
    ∃ pre s' post r, slots opts domains = pre ++ s' :: post ∧ s'.tail sha1 = s.tail sha1 ∧
      (∀ z ∈ post, z.tail sha1 ≠ s.tail sha1) ∧ Fits sha1 routerName opts domains s' r ∧
      Described sha1 routerName port opts domains r := by
  have hne : domains ≠ [] := by
    rintro rfl
    obtain ⟨d, hd, -⟩ := (mem_slots hnd).mp hs
    cases hd
  obtain ⟨pre, s', post, hslots, htail, hlast⟩ :=
    @Grouping.exists_last _ (slots opts domains) (fun z => z.tail sha1 = s.tail sha1) ⟨s, hs, rfl⟩
  have hfits := @routers_fit sha1 routerName opts domains hnd
  rw [hslots] at hfits
  obtain ⟨pre', r, post', hrs, hfit, hpost⟩ := Grouping.exists_split_right hfits
  refine ⟨pre, s', post, r, hslots, htail, hlast, hfit, described_of_last hne hrs ?_⟩
  intro r' hr' hname
  obtain ⟨z, hz, hzfit⟩ := Grouping.exists_of_mem_right hpost hr'
  rw [hzfit.name, hfit.name, append_cancel_left_eq] at hname
  exact hlast z hz (hname.trans htail)

theorem Fits.valid (hvalid : ∀ d ∈ domains, isHost d.host = true)
    (hfit : Fits sha1 routerName opts domains s r) : ∀ h ∈ r.hosts, isHost h = true := by
  intro h hh
  obtain ⟨d, hd, rfl, -⟩ := (hfit.hosts h).mp hh
  exact hvalid d hd

/-- **The slot of a described router is the last of its name.** -/
theorem last_of_described (hnd : (domains.map RoutedDomain.host).Nodup)
    (hvalid : ∀ d ∈ domains, isHost d.host = true) (hs : s ∈ slots opts domains)
    (hfit : Fits sha1 routerName opts domains s r)
    (hr : Described sha1 routerName port opts domains r) :
    ∃ pre post, slots opts domains = pre ++ s :: post ∧ ∀ z ∈ post, z.tail sha1 ≠ s.tail sha1 := by
  obtain ⟨pre, s', post, r', hslots, htail, hlast, hfit', hr'⟩ :=
    exists_described sha1 routerName port hnd hs
  -- both routers describe the same rule, so they have a host in common
  have hname : r'.name = r.name := by rw [hfit'.name, hfit.name, htail]
  have hrule := hr.2 _ (mem_append_left _ (mem_append_left _ mem_cons_self))
  have hrule' := hr'.2 _ (mem_append_left _ (mem_append_left _ mem_cons_self))
  rw [hname] at hrule'
  have hhosts : r.hosts = r'.hosts := rule_inj (Fits.valid hvalid hfit) (Fits.valid hvalid hfit')
    (some.inj (hrule.symm.trans hrule'))
  obtain ⟨d, hd, hon⟩ := (mem_slots hnd).mp hs
  have hmem : d.host ∈ r.hosts := (hfit.host_iff hnd hd).mpr hon
  have hon' : On opts d s' := (hfit'.host_iff hnd hd).mp (hhosts ▸ hmem)
  have hentry := entrypoint_of_tail htail
  have hsame : s' = s := by
    rcases hon with hweb | hsecure
    · have : s.entrypoint = web := hweb ▸ webSlot_entrypoint opts d
      rw [on_web hon' (hentry.trans this), hweb]
    · have := (secureSlot_entrypoint hsecure).1
      exact some.inj ((on_websecure hon' (hentry.trans this)).symm.trans hsecure)
  subst hsame
  exact ⟨pre, post, hslots, hlast⟩

/-- The names of the file and of the labels, class by class. -/
theorem fileTail_cases (sha1 : JsString → JsString) (hs : s ≠ .redirect) :
    fileTail sha1 s = js "web" ++ s.tail sha1 ∨
      ((fileTail sha1 s)[0]? = some (cu 's') ∧ js "-" ++ fileTail sha1 s = s.tail sha1) := by
  cases s with
  | plain key => exact .inl rfl
  | redirect => exact absurd rfl hs
  | secure key => exact .inr ⟨rfl, rfl⟩
  | dns main key =>
    right
    rw [fileTail, Slot.tail, dnsClass, mainSuffix]
    split <;> exact ⟨rfl, rfl⟩
  | custom key => exact .inr ⟨rfl, rfl⟩

/-- What shares a name in the file shares one in the labels. -/
theorem tail_of_fileTail {s' : Slot} (hs : s ≠ .redirect) (hs' : s' ≠ .redirect)
    (h : fileTail sha1 s = fileTail sha1 s') : s.tail sha1 = s'.tail sha1 := by
  have hws : ∀ t : JsString, (js "web" ++ t)[0]? ≠ some (cu 's') := by
    intro t
    change some (cu 'w') ≠ some (cu 's')
    decide
  rcases fileTail_cases sha1 hs with hw | ⟨hf, hsec⟩
  · rcases fileTail_cases sha1 hs' with hw' | ⟨hf', -⟩
    · exact append_cancel_left (hw.symm.trans (h.trans hw'))
    · rw [← h, hw] at hf'
      exact absurd hf' (hws _)
  · rcases fileTail_cases sha1 hs' with hw' | ⟨-, hsec'⟩
    · rw [h, hw'] at hf
      exact absurd hf (hws _)
    · rw [← hsec, ← hsec', h]

variable (sha1 appId) in
theorem exists_fileRouter (hnd : (domains.map RoutedDomain.host).Nodup) {pre post : List Slot}
    (hslots : slots opts domains = pre ++ s :: post) (hlast : ∀ z ∈ post, z.tail sha1 ≠ s.tail sha1)
    (hs : s ∈ fileSlots opts domains) :
    ∃ e ∈ Assoc.setAll [] (routerEntries sha1 appId opts.acme opts.dnsResolver domains),
      FileFits sha1 appId opts domains s e := by
  obtain ⟨pre', post', hfile, hlast'⟩ := Grouping.last_of_sublist hslots slots_nodup hlast
    (fileSlots_sublist hnd) hs
  have hfits := @config_fits sha1 appId opts domains
  rw [hfile] at hfits
  obtain ⟨front, e, back, hentries, hfit, hback⟩ := Grouping.exists_split_right hfits
  refine ⟨e, Assoc.mem_of_get (Assoc.get_setAll_last hentries ?_), hfit⟩
  intro e' he' hname
  obtain ⟨z, hz, hzfit⟩ := Grouping.exists_of_mem_right hback he'
  rw [hzfit.name, hfit.name, append_cancel_left_eq, append_cancel_left_eq] at hname
  have hnot : ∀ x ∈ fileSlots opts domains, x ≠ .redirect := by
    rintro x hx rfl
    obtain ⟨d, -, hin⟩ := mem_fileSlots.mp hx
    exact not_inFile_redirect hin
  have hzmem : z ∈ fileSlots opts domains := by
    rw [hfile]
    exact mem_append_right _ (mem_cons_of_mem _ hz)
  exact hlast' z hz (tail_of_fileTail (hnot z hzmem) (hnot s hs) hname)

end Survive

/-! ## The mirror -/

section Mirror
variable {sha1 : JsString → JsString} {routerName appId : JsString} {port : Nat}
  {opts : LabelOptions} {domains : List RoutedDomain}

theorem fileRouters_eq (hvalid : ∀ d ∈ domains, isHost d.host = true) :
    fileRouters sha1 appId opts.acme opts.dnsResolver domains =
      Assoc.setAll [] (routerEntries sha1 appId opts.acme opts.dnsResolver domains) := by
  have hhosts : domains.filter (fun d => isHost d.host) = domains := List.filter_eq_self.mpr hvalid
  rw [fileRouters, appDynamicConfig, hhosts]
  by_cases hne : domains = []
  · subst hne
    rfl
  · simp [hne]

theorem chain_of_slot (hs : s ≠ .redirect) :
    s.chain routerName opts = chainOf routerName opts (operatorsOf s) := by
  cases s with
  | redirect => exact absurd rfl hs
  | _ => rfl

variable {e : JsString × FileRouter}

theorem exists_fileSlot (hvalid : ∀ d ∈ domains, isHost d.host = true)
    (he : e ∈ fileRouters sha1 appId opts.acme opts.dnsResolver domains) :
    ∃ s, FileFits sha1 appId opts domains s e := by
  rw [fileRouters_eq hvalid] at he
  have hget := Assoc.get_of_mem (Assoc.nodup_setAll (by simp) _) he
  obtain ⟨s, -, hfit⟩ := Grouping.exists_of_mem_right config_fits (Assoc.mem_of_get_setAll hget)
  exact ⟨s, hfit⟩

theorem FileFits.host_iff (hnd : (domains.map RoutedDomain.host).Nodup) {d : RoutedDomain}
    (hd : d ∈ domains)
    (he : FileFits sha1 appId opts domains s e) : d.host ∈ e.2.hosts ↔ InFile opts d s := by
  rw [he.hosts]
  constructor
  · rintro ⟨d', hd', hhost, hin⟩
    rwa [← inj_on_of_nodup_map hnd hd' hd hhost]
  · intro hin
    exact ⟨d, hd, rfl, hin⟩

/-- A redirected host has no `web` router in the file, whatever the options. -/
theorem no_web_router (hnd : (domains.map RoutedDomain.host).Nodup)
    (hvalid : ∀ d ∈ domains, isHost d.host = true)
    (hr : Described sha1 routerName port opts domains r)
    (hname : r.name = routerName ++ js "-redirect") {h : JsString} (hh : h ∈ r.hosts)
    (he : e ∈ fileRouters sha1 appId opts.acme opts.dnsResolver domains)
    (hweb : web ∈ e.2.entryPoints) : h ∉ e.2.hosts := by
  obtain ⟨s, hfit⟩ := exists_slot hnd hr.1
  rw [hfit.name, append_cancel_left_eq, tail_eq_redirect] at hname
  subst hname
  obtain ⟨d, hd, rfl, hon⟩ := (hfit.hosts h).mp hh
  obtain ⟨s', hfit'⟩ := exists_fileSlot hvalid he
  intro hmem
  have hin := (FileFits.host_iff hnd hd hfit').mp hmem
  rw [InFile, if_pos (on_redirect.mp hon)] at hin
  rw [hfit'.entryPoints, mem_singleton, (secureSlot_entrypoint hin).1] at hweb
  exact web_ne_websecure hweb

theorem inFile_of_on {d : RoutedDomain} (hon : On opts d s) (hs : s ≠ .redirect)
    (hredirected : d.https = true → Proxy.redirected opts d = true) : InFile opts d s := by
  rw [InFile]
  rcases hon with hweb | hsecure
  · rw [webSlot] at hweb
    split at hweb
    · exact absurd hweb.symm hs
    · rename_i hr
      rw [if_neg hr, webSlot, if_neg hr, hweb]
  · rw [if_pos (hredirected (exists_secureSlot.mp ⟨s, hsecure⟩))]
    exact hsecure

/-- Slots with one name are of uploaded certificates together. -/
theorem custom_of_tail
    (h : (Slot.custom key).tail sha1 = s.tail sha1) : ∃ key', s = .custom key' := by
  have hc := Slot.tail_class sha1 (.custom key)
  have hc' := Slot.tail_class sha1 s
  have hrs : cu 'r' ≠ cu 's' := by decide
  have hsm : cu 's' ≠ cu 'm' := by decide
  have hcm : cu 'c' ≠ cu 'm' := by decide
  have hcd : cu 'c' ≠ cu 'd' := by decide
  rw [h] at hc
  cases s <;> dsimp only at hc hc' <;> first | exact ⟨_, rfl⟩ | (exfalso; grind)

/-- An https domain without uploaded certificate keeps a `websecure` router in the labels
when ACME is off, but the file has none for its host. -/
theorem not_mirrors (hnd : (domains.map RoutedDomain.host).Nodup)
    (hvalid : ∀ d ∈ domains, isHost d.host = true) (hacme : opts.acme ≠ true)
    {d : RoutedDomain} (hd : d ∈ domains) (hhttps : d.https = true) (hcustom : d.customCert ≠ true) :
    ¬ Mirrors sha1 routerName appId port opts domains := by
  intro hmirrors
  obtain ⟨s, hs⟩ := (@exists_secureSlot d opts).mpr hhttps
  -- a collision may have taken the router of the domain, but then another one of its kind is there
  obtain ⟨pre, s', post, r, hslots, htail, -, hfit, hdesc⟩ :=
    exists_described sha1 routerName port hnd ((mem_slots hnd).mpr ⟨d, hd, .inr hs⟩)
  have hmem : s' ∈ slots opts domains := by simp [hslots]
  obtain ⟨d', hd', hon'⟩ := (mem_slots hnd).mp hmem
  have hentry : s'.entrypoint = websecure :=
    (entrypoint_of_tail htail).trans (secureSlot_entrypoint hs).1
  have hplain : Proxy.redirected opts d' = false := by
    have hnot : d'.customCert = false := by
      by_contra hfalse
      have hc : d'.customCert = true := by simpa using hfalse
      have hsecure := on_websecure hon' hentry
      have hhttps' := exists_secureSlot.mp ⟨s', hsecure⟩
      have hs' : s' = .custom (middlewareKey d') := by
        simpa [secureSlot, hhttps', hc] using hsecure.symm
      obtain ⟨key, rfl⟩ := custom_of_tail (hs' ▸ htail)
      exact hcustom (on_custom.mp (.inr hs)).2.1
    simp [Proxy.redirected, hnot, hacme]
  have hname : r.name ≠ routerName ++ js "-redirect" := by
    rw [hfit.name, Ne, append_cancel_left_eq, tail_eq_redirect]
    rintro rfl
    exact web_ne_websecure hentry
  obtain ⟨e, he, hpoints, hhost, -⟩ :=
    hmirrors.covered r hdesc hname d'.host ((hfit.host_iff hnd hd').mpr hon')
  obtain ⟨s'', hfit''⟩ := exists_fileSlot hvalid he
  have hin := (FileFits.host_iff hnd hd' hfit'').mp hhost
  rw [InFile, hplain, if_neg (by simp)] at hin
  rw [hfit''.entryPoints, ← hin, webSlot_entrypoint, hfit.entrypoint, hentry] at hpoints
  exact web_ne_websecure (List.cons.inj hpoints).1

/-- **When the file mirrors the labels**: exactly when ACME is on or every https domain has
an uploaded certificate. -/
theorem mirrors_iff (sha1 : JsString → JsString) (routerName appId : JsString) (port : Nat)
    (opts : LabelOptions) (domains : List RoutedDomain)
    (hnd : (domains.map RoutedDomain.host).Nodup)
    (hvalid : ∀ d ∈ domains, isHost d.host = true) :
    Mirrors sha1 routerName appId port opts domains ↔
      opts.acme = true ∨ ∀ d ∈ domains, d.https = true → d.customCert = true := by
  constructor
  · intro hmirrors
    by_contra hcond
    push Not at hcond
    obtain ⟨hacme, d, hd, hhttps, hcustom⟩ := hcond
    exact not_mirrors hnd hvalid hacme hd hhttps hcustom hmirrors
  · intro hcond
    have hredirected : ∀ d ∈ domains, d.https = true → Proxy.redirected opts d = true := by
      intro d hd hhttps
      rw [Proxy.redirected, hhttps, Bool.true_and, Bool.or_eq_true]
      exact hcond.symm.imp (fun h => h d hd hhttps) id
    refine ⟨fun r hr hname h hh => ?_,
      fun r hr hname h hh e he => no_web_router hnd hvalid hr hname hh he⟩
    obtain ⟨s, hs, hfit⟩ := Grouping.exists_of_mem_right (routers_fit _ _ hnd) hr.1
    obtain ⟨d, hd, rfl, hon⟩ := (hfit.hosts h).mp hh
    rw [hfit.name, Ne, List.append_cancel_left_eq, tail_eq_redirect] at hname
    have hin : InFile opts d s := inFile_of_on hon hname (hredirected d hd)
    obtain ⟨pre, post, hslots, hlast⟩ := last_of_described hnd hvalid hs hfit hr
    obtain ⟨e, he, hefit⟩ := exists_fileRouter sha1 appId hnd hslots hlast
      (mem_fileSlots.mpr ⟨d, hd, hin⟩)
    refine ⟨e, (fileRouters_eq hvalid).symm ▸ he, ?_, (hefit.hosts _).mpr ⟨d, hd, rfl, hin⟩, ?_, ?_⟩
    · rw [hefit.entryPoints, hfit.entrypoint]
    · rw [hefit.tls, hfit.tls]
    · exact ⟨operatorsOf s, hfit.middlewares.trans (chain_of_slot hname), hefit.middlewares⟩

end Mirror

/-- An https host of an instance without ACME. -/
def shopDomains : List RoutedDomain := [⟨js "shop.example.com", true, false, none, []⟩]

/-- The labels serve the host on `websecure`, the file only on `web`. -/
theorem mirror_misses_websecure :
    ¬ Mirrors sampleSha1 (js "shop") (js "42") 3000 ⟨443, false, false, true⟩ shopDomains :=
  not_mirrors (by decide) (by decide) (by decide) List.mem_cons_self rfl (by decide)

theorem mirrors_iff_sample :
    Mirrors sampleSha1 (js "shop") (js "42") 3000 ⟨443, true, true, true⟩ sampleDomains :=
  (mirrors_iff sampleSha1 (js "shop") (js "42") 3000 ⟨443, true, true, true⟩ sampleDomains
    (by decide) (by decide)).mpr (.inl rfl)

end Aoox.Maintenance
