import Aoox.Matches
import Aoox.ProxyLabels

/-! # The hosts a container answers for

Two applications must not claim one domain.  Which hosts a container answers for is read back
from the labels that `buildLabels` wrote: one pattern picks the `Host` calls out of the rule of
every router, another one the texts between the quotes of a call.

A rule of accepted hosts reads back as these hosts, lower-cased (`hostsInRule_rule`).  Every host is
in a router on `web`, and the rules of these routers are under keys of their own, unless the
hashes of two middleware lists begin alike: then the later rule takes the place of the earlier one
and the hosts of that one are lost (`hosts_lost`).  Otherwise a container claims exactly its hosts
(`claims_exact`).
-/
namespace Aoox.TraefikHosts
open JsString Proxy
open Matches (matchAll)

/-! ## Reading a rule -/

/-- A backtick or a quote. -/
def isMark (c : CodeUnit) : Bool := c = cu '\x60' || c = cu '"' || c = cu '\''

/-- `QUOTED` at the beginning of a text: what stands between the marks. -/
def quoted : JsString → Option (JsString × JsString)
  | [] => none
  | c :: cs =>
    if isMark c then
      match cs.dropWhile fun x => !isMark x with
      | [] => none
      | _ :: rest => some (cs.takeWhile fun x => !isMark x, rest)
    else none

/-- `\s*,?\s*` -/
def separator (text : JsString) : JsString :=
  match trimStart text with
  | [] => []
  | c :: rest => if c = cu ',' then trimStart rest else c :: rest

/-- The repeated part of `HOST_CALL`.  A mark begins another turn and nothing else does, so no turn
is ever given back. -/
def turns : Nat → JsString → Option JsString
  | 0, _ => none
  | n + 1, text =>
    (quoted text).bind fun q =>
      let rest := separator q.2
      if rest.head?.any isMark then turns n rest else some rest

/-- `HOST_CALL` at the beginning of a text: what it captures. -/
def hostCall (text : JsString) : Option (JsString × JsString) :=
  if toLowerCase (sliceTo text 5) = js "host(" then
    let args := trimStart (sliceFrom text 5)
    (turns args.length args).bind fun rest =>
      if rest.head? = some (cu ')') then some (sliceTo args (args.length - rest.length), rest.tail)
      else none
  else none

def hostsInRule (rule : JsString) : List JsString :=
  (matchAll hostCall rule).flatMap fun call =>
    (matchAll quoted call).filterMap fun q =>
      let h := toLowerCase (trim q)
      if h = [] then none else some h

/-- `ROUTER_RULE` -/
def isRouterRule (key : JsString) : Bool :=
  let name := sliceTo (sliceFrom key 21) (key.length - 26)
  key = routerKey name (js "rule") && name ≠ [] && cu '.' ∉ name

def routedHosts (labels : Option (List (JsString × JsString))) : List JsString :=
  (((labels.getD []).filter fun e => isRouterRule e.1).flatMap fun e => hostsInRule e.2).eraseDups

/-! ## Claims -/

structure ContainerSummary where
  (id state : JsString)
  labels : Option (List (JsString × JsString))

/-- `SERVING` -/
def servingStates : List JsString := [js "running", js "restarting", js "paused"]

/-- `result.get(h)!.push(c)` for the wanted hosts that the container routes. -/
def pushClaims (c : ContainerSummary) (routed wanted : List JsString)
    (result : List (JsString × List ContainerSummary)) : List (JsString × List ContainerSummary) :=
  wanted.foldl (fun result h =>
    if h ∈ routed then Assoc.set result h ((Assoc.get result h).getD [] ++ [c]) else result) result

def claimsOnHosts (containers : List ContainerSummary) (hosts : List JsString)
    (isOwn : ContainerSummary → Bool) : List (JsString × List ContainerSummary) :=
  let wanted := hosts.map toLowerCase
  containers.foldl (fun result c =>
    if c.state ∉ servingStates || isOwn c then result
    else pushClaims c (routedHosts c.labels) wanted result)
    (Assoc.ofList (wanted.map fun h => (h, [])))

variable {wanted : List JsString} {h : JsString}

/-- Every wanted host has its list; a container is in it as often as the host is wanted. -/
theorem get_pushClaims (c : ContainerSummary) (routed : List JsString)
    {result : List (JsString × List ContainerSummary)} {list : List ContainerSummary}
    (hget : Assoc.get result h = some list) :
    Assoc.get (pushClaims c routed wanted result) h =
      some (list ++ List.replicate (if h ∈ routed then wanted.count h else 0) c) := by
  induction wanted generalizing result list with
  | nil => simpa [pushClaims] using hget
  | cons w ws ih =>
    rw [pushClaims, List.foldl_cons]
    by_cases hw : w ∈ routed
    · rw [if_pos hw]
      by_cases hwh : w = h
      · subst hwh
        have hnew : Assoc.get (Assoc.set result w ((Assoc.get result w).getD [] ++ [c])) w =
            some (list ++ [c]) := by
          rw [Assoc.get_set, if_pos rfl, hget, Option.getD_some]
        refine (ih hnew).trans ?_
        rw [if_pos hw, if_pos hw, List.count_cons_self, List.replicate_succ, List.append_assoc,
          List.singleton_append]
      · have hsame : Assoc.get (Assoc.set result w ((Assoc.get result w).getD [] ++ [c])) h =
            some list := by
          rw [Assoc.get_set, if_neg hwh, hget]
        refine (ih hsame).trans ?_
        rw [List.count_cons_of_ne hwh]
    · rw [if_neg hw]
      refine (ih hget).trans ?_
      by_cases hh : h ∈ routed
      · have hwh : w ≠ h := fun heq => hw (heq ▸ hh)
        rw [if_pos hh, if_pos hh, List.count_cons_of_ne hwh]
      · rw [if_neg hh, if_neg hh]

/-- Nothing has been found yet. -/
theorem get_wanted (hh : h ∈ wanted) :
    Assoc.get (Assoc.ofList (wanted.map fun h => (h, ([] : List ContainerSummary)))) h = some [] := by
  rw [Assoc.get_ofList]
  have hkey : h ∈ ((wanted.map fun h => (h, ([] : List ContainerSummary))).reverse).map Prod.fst := by
    simpa using hh
  obtain ⟨list, hget⟩ := Option.isSome_iff_exists.mp (Assoc.get_isSome_iff.mpr hkey)
  obtain ⟨k, -, hk⟩ := List.mem_map.mp (List.mem_reverse.mp (Assoc.mem_of_get hget))
  rw [hget, (Prod.mk.inj hk).2]

theorem get_claimsOnHosts (containers : List ContainerSummary) {hosts : List JsString}
    (isOwn : ContainerSummary → Bool) (hh : h ∈ hosts.map toLowerCase) :
    ∃ list, Assoc.get (claimsOnHosts containers hosts isOwn) h = some list ∧ ∀ c, c ∈ list ↔
      c ∈ containers ∧ c.state ∈ servingStates ∧ isOwn c = false ∧ h ∈ routedHosts c.labels := by
  rw [claimsOnHosts]
  induction containers using List.reverseRecOn with
  | nil =>
    exact ⟨[], get_wanted hh, by simp⟩
  | append_singleton containers c ih =>
    obtain ⟨list, hget, hmem⟩ := ih
    rw [List.foldl_concat]
    split
    · rename_i hskip
      refine ⟨list, hget, fun x => ?_⟩
      rw [hmem, List.mem_append, List.mem_singleton]
      rw [Bool.or_eq_true, decide_eq_true_eq] at hskip
      constructor
      · rintro ⟨hx, hrest⟩
        exact ⟨.inl hx, hrest⟩
      · rintro ⟨hx | rfl, hstate, hown, hroutes⟩
        · exact ⟨hx, hstate, hown, hroutes⟩
        · rcases hskip with hno | hyes
          · exact absurd hstate hno
          · rw [hyes] at hown
            cases hown
    · rename_i hserves
      refine ⟨_, get_pushClaims c (routedHosts c.labels) hget, fun x => ?_⟩
      rw [List.mem_append, hmem, List.mem_append, List.mem_singleton, List.mem_replicate]
      rw [Bool.or_eq_true, not_or, decide_eq_true_eq, not_not, Bool.not_eq_true] at hserves
      constructor
      · rintro (⟨hx, hrest⟩ | ⟨htimes, rfl⟩)
        · exact ⟨.inl hx, hrest⟩
        · refine ⟨.inr rfl, hserves.1, hserves.2, ?_⟩
          by_contra hroutes
          exact htimes (if_neg hroutes)
      · rintro ⟨hx | rfl, hstate, hown, hroutes⟩
        · exact .inl ⟨hx, hstate, hown, hroutes⟩
        · refine .inr ⟨?_, rfl⟩
          rw [if_pos hroutes]
          exact Nat.ne_of_gt (List.count_pos_iff.mpr hh)

/-! ## Rules read back -/

/-- `[a-z0-9-]` of either case. -/
def isHostUnit (c : CodeUnit) : Bool := isLetter c || isDigit c || c = cu '-'

def isHostLabel (label : JsString) : Bool :=
  label ≠ [] && label.all isHostUnit && label.head? ≠ some (cu '-') &&
    label.getLast? ≠ some (cu '-')

/-- The pattern of `host` in the request that adds a domain, and its length. -/
def isDomainHost (host : JsString) : Bool :=
  1 ≤ host.length && host.length ≤ 253 && (split host (js ".")).all isHostLabel

theorem isHostUnit_clean {c : CodeUnit} (h : isHostUnit c = true) :
    isMark c = false ∧ isSpace c = false := by
  rw [← Bool.not_eq_true, ← Bool.not_eq_true]
  simp only [isHostUnit, isLetter, isDigit, cu, Bool.or_eq_true, Bool.and_eq_true,
    decide_eq_true_eq, UInt16.le_iff_toNat_le, ← UInt16.toNat_inj] at h
  constructor
  · intro hm
    simp only [isMark, cu, Bool.or_eq_true, decide_eq_true_eq, ← UInt16.toNat_inj] at hm
    simp only [Nat.toUInt16, Char.reduceToNat, UInt16.reduceOfNat, UInt16.reduceToNat] at h hm
    omega
  · intro hs
    simp only [isSpace, Bool.or_eq_true, Bool.and_eq_true, decide_eq_true_eq, beq_iff_eq,
      UInt16.le_iff_toNat_le, ← UInt16.toNat_inj] at hs
    simp only [Nat.toUInt16, Char.reduceToNat, UInt16.reduceOfNat, UInt16.reduceToNat] at h hs
    omega

variable {host : JsString}

/-- Nothing in a host ends a quoted text, and nothing is trimmed off it. -/
theorem isDomainHost_clean (h : isDomainHost host = true) :
    host ≠ [] ∧ ∀ c ∈ host, isMark c = false ∧ isSpace c = false := by
  simp only [isDomainHost, Bool.and_eq_true, decide_eq_true_eq, List.all_eq_true] at h
  refine ⟨List.ne_nil_of_length_pos h.1.1, fun c hc => ?_⟩
  by_cases hdot : c = cu '.'
  · rw [hdot]
    exact ⟨rfl, rfl⟩
  · obtain ⟨label, hlabel, hmem⟩ := exists_mem_split_unit hc hdot
    have hunits := h.2 label hlabel
    simp only [isHostLabel, Bool.and_eq_true, List.all_eq_true] at hunits
    exact isHostUnit_clean (hunits.1.1.2 c hmem)

theorem trim_host (h : ∀ c ∈ host, isMark c = false ∧ isSpace c = false) : trim host = host :=
  trim_eq_self (fun c hc => (h c (List.mem_of_mem_head? hc)).2)
    fun c hc => (h c (List.mem_of_getLast? hc)).2

theorem quoted_host (h : ∀ c ∈ host, isMark c = false ∧ isSpace c = false)
    (rest : JsString) : quoted (cu '\x60' :: (host ++ cu '\x60' :: rest)) = some (host, rest) := by
  have hopen : ∀ c ∈ host, (!isMark c) = true := fun c hc => by rw [(h c hc).1]; rfl
  have hmark : isMark (cu '\x60') = true := rfl
  have hdrop : (host ++ cu '\x60' :: rest).dropWhile (fun x => !isMark x) = cu '\x60' :: rest := by
    rw [List.dropWhile_append_of_pos hopen, List.dropWhile_cons_of_neg (by rw [hmark]; decide)]
  have htake : (host ++ cu '\x60' :: rest).takeWhile (fun x => !isMark x) = host := by
    rw [List.takeWhile_append_of_pos hopen, List.takeWhile_cons_of_neg (by rw [hmark]; decide),
      List.append_nil]
  rw [quoted, if_pos hmark, hdrop, htake]

def callOf (host : JsString) : JsString := js "ost(`" ++ (host ++ js "`)")

theorem hostCall_host (h : ∀ c ∈ host, isMark c = false ∧ isSpace c = false)
    (rest : JsString) : hostCall (cu 'H' :: (callOf host ++ rest)) =
      some (cu '\x60' :: (host ++ [cu '\x60']), rest) := by
  have htext : cu 'H' :: (callOf host ++ rest) = js "Host(" ++
      (cu '\x60' :: (host ++ cu '\x60' :: (cu ')' :: rest))) := by
    rw [callOf, List.append_assoc, List.append_assoc]
    rfl
  have hargs : trimStart (cu '\x60' :: (host ++ cu '\x60' :: (cu ')' :: rest))) =
      cu '\x60' :: (host ++ cu '\x60' :: (cu ')' :: rest)) :=
    List.dropWhile_cons_of_neg (by decide)
  have hseparator : separator (cu ')' :: rest) = cu ')' :: rest := by
    have htrim : trimStart (cu ')' :: rest) = cu ')' :: rest :=
      List.dropWhile_cons_of_neg (by decide)
    rw [separator, htrim]
    exact if_neg (by decide)
  have hturns : ∀ n, turns (n + 1) (cu '\x60' :: (host ++ cu '\x60' :: (cu ')' :: rest))) =
      some (cu ')' :: rest) := by
    intro n
    rw [turns, quoted_host h, Option.bind_some]
    dsimp only
    rw [hseparator]
    have hmark : isMark (cu ')') = false := rfl
    rw [List.head?_cons, Option.any_some, hmark]
    rfl
  have htake : sliceTo (cu '\x60' :: (host ++ cu '\x60' :: (cu ')' :: rest)))
      ((cu '\x60' :: (host ++ cu '\x60' :: (cu ')' :: rest))).length - (cu ')' :: rest).length) =
      cu '\x60' :: (host ++ [cu '\x60']) := by
    have hsplit : cu '\x60' :: (host ++ cu '\x60' :: (cu ')' :: rest)) =
        (cu '\x60' :: (host ++ [cu '\x60'])) ++ (cu ')' :: rest) := by simp
    rw [hsplit, sliceTo, List.length_append, Nat.add_sub_cancel, List.take_left]
  have hrest : sliceFrom (js "Host(" ++ (cu '\x60' :: (host ++ cu '\x60' :: (cu ')' :: rest)))) 5 =
      cu '\x60' :: (host ++ cu '\x60' :: (cu ')' :: rest)) := rfl
  rw [htext, hostCall]
  refine (if_pos rfl).trans ?_
  dsimp only
  rw [hrest, hargs, List.length_cons, hturns, ← List.length_cons, Option.bind_some, List.head?_cons,
    if_pos rfl, htake, List.tail_cons]

theorem hostCall_skip : ∀ c ∈ js " || ", ∀ text, hostCall (c :: text) = none := by
  intro c hc text
  refine if_neg fun heq => ?_
  have hlower : (js " || ").all fun x => toLowerCase [x] != [cu 'h'] := by decide
  exact bne_iff_ne.mp (List.all_eq_true.mp hlower c hc) (congrArg (List.take 1) heq)

theorem matchAll_rule {hosts : List JsString}
    (h : ∀ x ∈ hosts, ∀ c ∈ x, isMark c = false ∧ isSpace c = false) :
    matchAll hostCall (rule hosts) = hosts.map fun x => cu '\x60' :: (x ++ [cu '\x60']) := by
  induction hosts with
  | nil => rfl
  | cons x xs ih =>
    have hx := h x List.mem_cons_self
    have ih := ih fun y hy => h y (List.mem_cons_of_mem x hy)
    have hrule : rule (x :: xs) = cu 'H' :: (callOf x ++
        if xs = [] then [] else js " || " ++ rule xs) := by
      rw [rule_cons, callOf, List.append_assoc, List.append_assoc]
      rfl
    rw [hrule, Matches.matchAll_match (hostCall_host hx _), List.map_cons]
    split
    · rename_i hnil
      rw [hnil]
      rfl
    · rw [Matches.matchAll_skip hostCall_skip, ih]

/-- **A rule reads back as its hosts**, lower-cased. -/
theorem hostsInRule_rule {hosts : List JsString} (h : ∀ x ∈ hosts, isDomainHost x = true) :
    hostsInRule (rule hosts) = hosts.map toLowerCase := by
  rw [hostsInRule, matchAll_rule fun x hx => (isDomainHost_clean (h x hx)).2, List.flatMap_map,
    List.map_eq_flatMap]
  refine List.flatMap_congr fun x hx => ?_
  obtain ⟨hne, hclean⟩ := isDomainHost_clean (h x hx)
  have hcall : matchAll quoted (cu '\x60' :: (x ++ [cu '\x60'])) = [x] := by
    have hquoted := quoted_host hclean []
    rw [← List.append_nil (x ++ [cu '\x60'])]
    refine Matches.matchAll_match ?_
    rw [List.append_nil]
    exact hquoted
  have hlower : toLowerCase x ≠ [] := fun hnil => hne (List.map_eq_nil_iff.mp hnil)
  rw [hcall, List.filterMap_cons, List.filterMap_nil, trim_host hclean]
  dsimp only
  rw [if_neg hlower]

/-! ## The routers on `web` -/

section Routers
variable {sha1 : JsString → JsString} {routerName : JsString} {opts : LabelOptions}
  {domains : List RoutedDomain} {port : Nat}

/-- The hashes of the middleware lists of the hosts on plain http do not begin alike. -/
def PlainApart (sha1 : JsString → JsString) (opts : LabelOptions) (domains : List RoutedDomain) :
    Prop :=
  ∀ d ∈ domains, ∀ d' ∈ domains, d.host ∈ plainHosts opts domains →
    d'.host ∈ plainHosts opts domains → middlewareKey d ≠ [] → middlewareKey d' ≠ [] →
      shortHash sha1 (middlewareKey d) = shortHash sha1 (middlewareKey d') →
        middlewareKey d = middlewareKey d'

variable {tail entrypoint : JsString} {tls : Option Tls} {part : List RoutedDomain}

theorem mem_serving {r : Router}
    (h : r ∈ Proxy.serving sha1 routerName opts tail entrypoint tls part) :
    ∃ d ∈ part, r.name = routerName ++ (tail ++ middlewareSuffix sha1 (middlewareKey d)) ∧
      r.hosts = (part.filter fun x => middlewareKey x = middlewareKey d).map RoutedDomain.host := by
  rw [Proxy.serving, byMiddlewares_eq, List.map_map] at h
  obtain ⟨key, hkey, rfl⟩ := List.mem_map.mp h
  obtain ⟨d, hd, rfl⟩ := List.mem_map.mp (List.mem_eraseDups.mp hkey)
  exact ⟨d, hd, List.append_assoc .., rfl⟩

theorem hosts_of_serving (hpart : part ⊆ domains) {r : Router}
    (h : r ∈ Proxy.serving sha1 routerName opts tail entrypoint tls part) :
    r.hosts ⊆ domains.map RoutedDomain.host := by
  obtain ⟨d, -, -, hhosts⟩ := mem_serving h
  rw [hhosts]
  exact List.map_subset _ (fun x hx => hpart (List.mem_filter.mp hx).1)

theorem dnsDomains_subset : dnsDomains opts domains ⊆ domains := by
  rw [dnsDomains]
  split
  · exact List.filter_subset_self _
  · exact List.nil_subset _

theorem redirectHosts_subset : redirectHosts opts domains ⊆ domains.map RoutedDomain.host := by
  rw [redirectHosts]
  refine List.append_subset.mpr ⟨?_, List.map_subset _ (List.filter_subset_self _)⟩
  split
  · exact List.map_subset _ (List.filter_subset_self _)
  · exact List.nil_subset _

theorem hosts_of_router {r : Router} (h : r ∈ routers sha1 routerName opts domains) :
    r.hosts ⊆ domains.map RoutedDomain.host := by
  simp only [routers, List.mem_append] at h
  rcases h with (((h | h) | h) | h) | h
  · exact hosts_of_serving (List.filter_subset_self _) h
  · rw [redirectRouters] at h
    split at h
    · cases h
    · rw [List.mem_singleton.mp h]
      exact redirectHosts_subset
  · exact hosts_of_serving (List.filter_subset_self _) h
  · obtain ⟨⟨main, group⟩, hgroup, hr⟩ := List.mem_flatMap.mp h
    obtain ⟨-, rfl⟩ := Grouping.mem_collect.mp hgroup
    exact hosts_of_serving (fun x hx => dnsDomains_subset (List.mem_filter.mp hx).1) hr
  · exact hosts_of_serving (List.filter_subset_self _) h

theorem exists_webRouter {d : RoutedDomain} (hd : d ∈ domains) :
    ∃ r ∈ plainRouters sha1 routerName opts domains ++ redirectRouters routerName opts domains,
      d.host ∈ r.hosts := by
  by_cases hredirect : d.host ∈ redirectHosts opts domains
  · refine ⟨⟨routerName ++ js "-redirect", redirectHosts opts domains, web, none,
      [routerName ++ js "-https"]⟩, List.mem_append_right _ ?_, hredirect⟩
    rw [redirectRouters, if_neg (List.ne_nil_of_mem hredirect)]
    exact List.mem_singleton_self _
  · have hplain : d.host ∈ plainHosts opts domains :=
      List.mem_filter.mpr ⟨List.mem_map_of_mem hd, by simpa using hredirect⟩
    have hpart : d ∈ domains.filter fun x => x.host ∈ plainHosts opts domains :=
      List.mem_filter.mpr ⟨hd, by simpa using hplain⟩
    have hkey : middlewareKey d ∈ ((domains.filter fun x => x.host ∈ plainHosts opts domains).map
        middlewareKey).eraseDups :=
      List.mem_eraseDups.mpr (List.mem_map_of_mem hpart)
    rw [plainRouters, Proxy.serving, byMiddlewares_eq, List.map_map]
    refine ⟨_, List.mem_append_left _ (List.mem_map_of_mem hkey), ?_⟩
    exact List.mem_map_of_mem (List.mem_filter.mpr ⟨hpart, by simp⟩)

/-- What a router adds to the name: the list of a plain router, or a word of its class. -/
theorem name_of_router {r : Router} (h : r ∈ routers sha1 routerName opts domains) :
    (r ∈ plainRouters sha1 routerName opts domains) ∨
      (r ∈ redirectRouters routerName opts domains ∧ r.name = routerName ++ js "-redirect") ∨
      ∃ rest, r.name = routerName ++ (js "-secure" ++ rest) := by
  simp only [routers, List.mem_append] at h
  rcases h with (((h | h) | h) | h) | h
  · exact .inl h
  · refine .inr (.inl ⟨h, ?_⟩)
    rw [redirectRouters] at h
    split at h
    · cases h
    · rw [List.mem_singleton.mp h]
  · obtain ⟨d, -, hname, -⟩ := mem_serving h
    exact .inr (.inr ⟨_, hname⟩)
  · obtain ⟨e, -, hr⟩ := List.mem_flatMap.mp h
    obtain ⟨d, -, hname, -⟩ := mem_serving hr
    exact .inr (.inr ⟨_, hname.trans (congrArg _ (List.append_assoc ..))⟩)
  · obtain ⟨d, -, hname, -⟩ := mem_serving h
    exact .inr (.inr ⟨js "-custom" ++ middlewareSuffix sha1 (middlewareKey d), hname⟩)

theorem hosts_of_name (hapart : PlainApart sha1 opts domains) {r r' : Router}
    (hr : r ∈ plainRouters sha1 routerName opts domains ++ redirectRouters routerName opts domains)
    (hr' : r' ∈ routers sha1 routerName opts domains) (h : r'.name = r.name) :
    r'.hosts = r.hosts := by
  -- the second unit of what is added tells the classes apart
  have hsecond : ∀ (key rest : JsString) (c : CodeUnit), c ≠ cu 'm' → rest[1]? = some c →
      routerName ++ ([] ++ middlewareSuffix sha1 key) ≠ routerName ++ rest := by
    intro key rest c hc hrest heq
    have htail := congrArg (fun t => t[1]?) (List.append_cancel_left heq)
    rw [List.nil_append, hrest] at htail
    have hcases : (middlewareSuffix sha1 key)[1]? = none ∨ _ := middlewareSuffix_second key
    rcases hcases with hnone | hm
    · cases hnone.symm.trans htail
    · exact hc (Option.some.inj (htail.symm.trans hm))
  have hwords : ∀ rest, routerName ++ js "-redirect" ≠ routerName ++ (js "-secure" ++ rest) := by
    intro rest heq
    have := congrArg (fun t => t[1]?) (List.append_cancel_left heq)
    exact absurd (Option.some.inj this) (by decide)
  rcases List.mem_append.mp hr with hplain | hredirect
  · obtain ⟨d, hd, hname, hhosts⟩ := mem_serving hplain
    rw [hname] at h
    rcases name_of_router hr' with hplain' | ⟨-, hname'⟩ | ⟨rest, hname'⟩
    · obtain ⟨d', hd', hname', hhosts'⟩ := mem_serving hplain'
      obtain ⟨hmem, hin⟩ := List.mem_filter.mp hd
      obtain ⟨hmem', hin'⟩ := List.mem_filter.mp hd'
      have hsuffix := List.append_cancel_left (hname'.symm.trans h)
      rw [List.nil_append, List.nil_append] at hsuffix
      have hkey := middlewareSuffix_inj
        (hapart d' hmem' d hmem (by simpa using hin') (by simpa using hin)) hsuffix
      rw [hhosts, hhosts', hkey]
    · exact absurd (h.symm.trans hname') (hsecond _ _ (cu 'r') (by decide) rfl)
    · exact absurd (h.symm.trans hname') (hsecond _ _ (cu 's') (by decide) rfl)
  · have hr0 := hredirect
    rw [redirectRouters] at hr0
    split at hr0
    · cases hr0
    · rename_i hne
      rw [List.mem_singleton.mp hr0] at h ⊢
      rcases name_of_router hr' with hplain' | ⟨hredirect', -⟩ | ⟨rest, hname'⟩
      · obtain ⟨d', -, hname', -⟩ := mem_serving hplain'
        exact absurd (hname'.symm.trans h) (hsecond _ _ (cu 'r') (by decide) rfl)
      · rw [redirectRouters, if_neg hne] at hredirect'
        rw [List.mem_singleton.mp hredirect']
      · exact absurd (h.symm.trans hname') (hwords rest)

/-! ## The labels read back -/

theorem label_of_rule {service name value : JsString} {r : Router}
    (h : (routerKey name (js "rule"), value) ∈ r.labels service) :
    name = r.name ∧ value = rule r.hosts := by
  have hkey := List.mem_map_of_mem (f := Prod.fst) h
  rw [Router.labels_keys] at hkey
  obtain ⟨field, hfield, heq⟩ := List.mem_map.mp hkey
  obtain ⟨hname, -⟩ := routerKey_inj (r.fields_sublist.subset hfield) (by decide) heq
  refine ⟨hname.symm, ?_⟩
  have hnd : ((r.labels service).map Prod.fst).Nodup := by
    have hone : ([r].flatMap (Router.labels service)).map Prod.fst |>.Nodup :=
      routerLabels_keys_nodup (List.nodup_singleton _)
    rwa [List.flatMap_singleton] at hone
  have hrule : (routerKey name (js "rule"), rule r.hosts) ∈ r.labels service := by
    rw [← hname]
    exact List.mem_append_left _ (List.mem_append_left _ List.mem_cons_self)
  exact Option.some.inj ((Assoc.get_of_mem hnd h).symm.trans (Assoc.get_of_mem hnd hrule))

theorem webRouter_mem {r : Router}
    (hr : r ∈ plainRouters sha1 routerName opts domains ++ redirectRouters routerName opts domains) :
    r ∈ routers sha1 routerName opts domains := by
  rw [routers, List.append_assoc, List.append_assoc]
  exact List.mem_append_left _ hr

theorem get_rule (hapart : PlainApart sha1 opts domains) {r : Router}
    (hr : r ∈ plainRouters sha1 routerName opts domains ++ redirectRouters routerName opts domains)
    (hne : domains ≠ []) :
    Assoc.get (buildLabels sha1 routerName opts domains port) (routerKey r.name (js "rule")) =
      some (rule r.hosts) := by
  have hmem := webRouter_mem hr
  have hperm := @assignments_perm sha1 routerName opts domains port
  rw [buildLabels, if_neg hne]
  refine Assoc.get_setAll_of_unique (e := (routerKey r.name (js "rule"), rule r.hosts))
    (hperm.mem_iff.mpr (List.mem_append_right _ (List.mem_flatMap.mpr ⟨r, hmem, ?_⟩))) ?_
  · exact List.mem_append_left _ (List.mem_append_left _ List.mem_cons_self)
  · rintro ⟨key, value⟩ he rfl
    rcases List.mem_append.mp (hperm.mem_iff.mp he) with hother | hrouter
    · have hkey := (otherLabels_keys_sublist routerName opts domains port).subset
        (List.mem_map_of_mem hother)
      exact absurd rfl (otherKeys_not_router hkey)
    · obtain ⟨r', hr', hlabel⟩ := List.mem_flatMap.mp hrouter
      obtain ⟨hname, hvalue⟩ := label_of_rule hlabel
      exact hvalue.trans (congrArg rule (hosts_of_name hapart hr hr' hname.symm))

/-- The names of these routers are names of Traefik. -/
theorem webRouter_name (hsha : IsHexDigest sha1) (hname : routerName ≠ []) (hdot : cu '.' ∉ routerName)
    {r : Router}
    (hr : r ∈ plainRouters sha1 routerName opts domains ++ redirectRouters routerName opts domains) :
    r.name ≠ [] ∧ cu '.' ∉ r.name := by
  have hadd : ∀ tail : JsString, cu '.' ∉ tail → routerName ++ tail ≠ [] ∧ cu '.' ∉ routerName ++ tail :=
    fun tail htail => ⟨fun h => hname (List.append_eq_nil_iff.mp h).1,
      fun h => (List.mem_append.mp h).elim hdot htail⟩
  rcases List.mem_append.mp hr with hr | hr
  · obtain ⟨d, -, heq, -⟩ := mem_serving hr
    rw [heq, List.nil_append]
    refine hadd _ fun h => ?_
    rw [middlewareSuffix] at h
    split at h
    · cases h
    · rcases List.mem_append.mp h with h | h
      · exact absurd h (by decide)
      · exact absurd (hsha.hex _ _ (List.mem_of_mem_take h)) (by decide)
  · rw [redirectRouters] at hr
    split at hr
    · cases hr
    · rw [List.mem_singleton.mp hr]
      exact hadd _ (by decide)

end Routers

theorem isRouterRule_routerKey {name : JsString} (hne : name ≠ []) (hdot : cu '.' ∉ name) :
    isRouterRule (routerKey name (js "rule")) = true := by
  have hcut : sliceTo (sliceFrom (routerKey name (js "rule")) 21)
      ((routerKey name (js "rule")).length - 26) = name := by
    have hlength : (routerKey name (js "rule")).length - 26 = name.length := by
      simp only [routerKey, List.length_append]
      rw [show (js "traefik.http.routers.").length = 21 from rfl, show (js ".").length = 1 from rfl,
        show (js "rule").length = 4 from rfl]
      omega
    have hdrop : sliceFrom (routerKey name (js "rule")) 21 = name ++ (js "." ++ js "rule") := rfl
    rw [hlength, hdrop, sliceTo, List.take_left]
  rw [isRouterRule, hcut]
  simp [hne, hdot]

/-- What `buildLabels` is called with. -/
structure Routing where
  routerName : JsString
  port : Nat
  opts : LabelOptions
  domains : List RoutedDomain

namespace Routing

def labels (sha1 : JsString → JsString) (r : Routing) : List (JsString × JsString) :=
  buildLabels sha1 r.routerName r.opts r.domains r.port

def hosts (r : Routing) : List JsString := r.domains.map fun d => toLowerCase d.host

/-- The name is one that Traefik takes, the hosts are accepted ones, and no rule takes the place of
another. -/
structure Readable (sha1 : JsString → JsString) (r : Routing) : Prop where
  named : r.routerName ≠ []
  noDot : cu '.' ∉ r.routerName
  accepted : ∀ d ∈ r.domains, isDomainHost d.host = true
  apart : PlainApart sha1 r.opts r.domains

end Routing

/-- **The labels read back as the hosts.** -/
theorem mem_routedHosts {sha1 : JsString → JsString} (hsha : IsHexDigest sha1) {r : Routing}
    (h : r.Readable sha1) (x : JsString) :
    x ∈ routedHosts (some (r.labels sha1)) ↔ x ∈ r.hosts := by
  have hrule : ∀ r' ∈ routers sha1 r.routerName r.opts r.domains,
      hostsInRule (rule r'.hosts) = r'.hosts.map toLowerCase := by
    intro r' hr'
    refine hostsInRule_rule fun host hhost => ?_
    obtain ⟨d, hd, rfl⟩ := List.mem_map.mp (hosts_of_router hr' hhost)
    exact h.accepted d hd
  rw [routedHosts, List.mem_eraseDups, Option.getD_some, List.mem_flatMap]
  constructor
  · rintro ⟨⟨key, value⟩, he, hx⟩
    obtain ⟨hmem, hkey⟩ := List.mem_filter.mp he
    simp only [isRouterRule, Bool.and_eq_true, decide_eq_true_eq] at hkey
    have hnd : ((r.labels sha1).map Prod.fst).Nodup := by
      rw [Routing.labels, buildLabels]
      split
      · exact List.nodup_nil
      · exact Assoc.nodup_setAll (m := []) List.nodup_nil _
    have hget := Assoc.get_of_mem hnd hmem
    dsimp only at hget
    rw [hkey.1.1] at hget
    obtain ⟨r', hr', hlabel⟩ := router_of_get hget
    rw [(label_of_rule hlabel).2, hrule r' hr'] at hx
    obtain ⟨host, hhost, rfl⟩ := List.mem_map.mp hx
    obtain ⟨d, hd, rfl⟩ := List.mem_map.mp (hosts_of_router hr' hhost)
    exact List.mem_map_of_mem hd
  · intro hx
    obtain ⟨d, hd, rfl⟩ := List.mem_map.mp hx
    obtain ⟨r', hr', hhost⟩ := @exists_webRouter sha1 r.routerName r.opts r.domains d hd
    have hname := webRouter_name hsha h.named h.noDot hr'
    have hget := @get_rule sha1 r.routerName r.opts r.domains r.port h.apart r' hr'
      (List.ne_nil_of_mem hd)
    refine ⟨_, List.mem_filter.mpr ⟨Assoc.mem_of_get hget, ?_⟩, ?_⟩
    · exact isRouterRule_routerKey hname.1 hname.2
    · dsimp only
      rw [hrule r' (webRouter_mem hr')]
      exact List.mem_map_of_mem hhost

/-- **A container claims exactly its hosts.** -/
theorem claims_exact (sha1 : JsString → JsString) (hsha : IsHexDigest sha1) :
    (∀ r : Routing, r.Readable sha1 →
      ∀ h, h ∈ routedHosts (some (r.labels sha1)) ↔ h ∈ r.hosts) ∧
    ∀ (containers : List ContainerSummary) (routing : ContainerSummary → Routing),
      (∀ c ∈ containers, (routing c).Readable sha1 ∧ c.labels = some ((routing c).labels sha1)) →
      ∀ (hosts : List JsString) (isOwn : ContainerSummary → Bool), ∀ h ∈ hosts,
        ∃ list, Assoc.get (claimsOnHosts containers hosts isOwn) (toLowerCase h) = some list ∧
          ∀ c, c ∈ list ↔ c ∈ containers ∧ c.state ∈ servingStates ∧ isOwn c = false ∧
            toLowerCase h ∈ (routing c).hosts := by
  refine ⟨fun r h => mem_routedHosts hsha h, fun containers routing hlabels hosts isOwn h hh => ?_⟩
  obtain ⟨list, hget, hmem⟩ :=
    get_claimsOnHosts containers isOwn (List.mem_map_of_mem (f := toLowerCase) hh)
  refine ⟨list, hget, fun c => ?_⟩
  rw [hmem]
  refine and_congr_right fun hc => and_congr_right fun _ => and_congr_right fun _ => ?_
  obtain ⟨hreadable, heq⟩ := hlabels c hc
  rw [heq, mem_routedHosts hsha hreadable]

def shop : Routing := ⟨js "shop", 3000, ⟨443, true, true, true⟩, sampleDomains⟩

theorem shop_readable : shop.Readable sampleSha1 where
  named := List.cons_ne_nil _ _
  noDot := by decide
  accepted := by decide
  apart := by
    unfold PlainApart
    decide

theorem claims_exact_shop :
    let c : ContainerSummary := ⟨js "1", js "running", some (shop.labels sampleSha1)⟩
    ∃ list, Assoc.get (claimsOnHosts [c] [js "B.example.com"] fun _ => false) (js "b.example.com") =
      some list ∧ c ∈ list := by
  intro c
  obtain ⟨list, hget, hmem⟩ := (claims_exact sampleSha1 sampleSha1_isHexDigest).2 [c] (fun _ => shop)
    (fun x hx => ⟨shop_readable, by rw [List.mem_singleton.mp hx]⟩) [js "B.example.com"]
    (fun _ => false) _ (List.mem_singleton_self _)
  exact ⟨list, hget, (hmem c).mpr ⟨List.mem_singleton_self c, by decide, rfl, by decide⟩⟩

/-- SHA-1 on two texts whose hashes begin alike; elsewhere the digest of the empty text. -/
def alikeSha1 (v : JsString) : JsString :=
  if v = js "m85324@file" then js "06cc1a50a0cc4931dffa54535e554e4eca98d264"
  else if v = js "m89333@file" then js "06cc1a50a8a64f8b1f493a6c83df7c588e6333c3"
  else js "da39a3ee5e6b4b0d3255bfef95601890afd80709"

/-- Two plain hosts, each behind one of these middlewares. -/
def alike : Routing where
  routerName := js "shop"
  port := 3000
  opts := ⟨443, false, false, false⟩
  domains := [⟨js "a.example.com", false, false, none, [js "m85324@file"]⟩,
    ⟨js "b.example.com", false, false, none, [js "m89333@file"]⟩]

def nameless : Routing where
  routerName := []
  port := 3000
  opts := ⟨443, false, false, false⟩
  domains := [⟨js "a.example.com", false, false, none, []⟩]

/-- A host behind a middleware whose hash begins like that of another one is lost, and so is the host
of a router without a name. -/
theorem hosts_lost :
    (¬ ∀ r : Routing, r.routerName ≠ [] → cu '.' ∉ r.routerName →
      (∀ d ∈ r.domains, isDomainHost d.host = true) →
        ∀ h, h ∈ routedHosts (some (r.labels alikeSha1)) ↔ h ∈ r.hosts) ∧
    ¬ ∀ r : Routing, PlainApart alikeSha1 r.opts r.domains → cu '.' ∉ r.routerName →
      (∀ d ∈ r.domains, isDomainHost d.host = true) →
        ∀ h, h ∈ routedHosts (some (r.labels alikeSha1)) ↔ h ∈ r.hosts := by
  have hlost : js "a.example.com" ∉ routedHosts (some (alike.labels alikeSha1)) := by decide
  have hlost' : js "a.example.com" ∉ routedHosts (some (nameless.labels alikeSha1)) := by
    decide
  constructor
  · intro h
    exact hlost ((h alike (List.cons_ne_nil _ _) (by decide) (by decide) _).mpr (by decide))
  · intro h
    refine hlost' ((h nameless ?_ (by decide) (by decide) _).mpr (by decide))
    unfold PlainApart
    decide

end Aoox.TraefikHosts
