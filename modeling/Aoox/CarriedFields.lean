import Aoox.Grouping
import Aoox.ProjectImport

/-! # What a field goes through

Every column and row of a resource is written into a file, read again and checked on the
way.  Here is, kind by kind, how the two ends are compared (references and links by name,
everything else as it is stored) and the condition under which nothing is lost.  Each
condition is exact: a field that does not meet it comes out different.
-/
open List Option
namespace Aoox.Transfer

open JsString ImportedMounts FieldChecks

/-! ## Texts and numbers -/

theorem given_some {text : JsString} (h : text ≠ []) : given (some text) = some text :=
  given_eq_some.mpr ⟨rfl, h⟩

theorem given_eq_self_iff (value : Option JsString) : given value = value ↔ value ≠ some [] := by
  cases value with
  | none => exact iff_of_true rfl nofun
  | some text =>
    rw [given_eq_some]
    simp

theorem orText_eq_self_iff {text fallback : JsString} (h : fallback ≠ []) :
    orText text fallback = text ↔ text ≠ [] := by
  cases text with
  | nil => exact iff_of_false h (absurd rfl)
  | cons c cs => exact iff_of_true rfl (cons_ne_nil c cs)

theorem inRange_eq_self_iff {n lo hi fallback : Nat} (h : lo ≤ fallback ∧ fallback ≤ hi) :
    inRange n lo hi fallback = n ↔ lo ≤ n ∧ n ≤ hi := by
  unfold inRange
  split <;> omega

theorem validInterval_eq_self_iff (n : Nat) : validInterval (some n) = n ↔ 5 ≤ n ∧ n ≤ 1440 := by
  show (if 5 ≤ n ∧ n ≤ 1440 then n else 60) = n ↔ _
  split <;> omega

theorem normalizeBind_some (b : HostPortBind) : normalizeBind (some b) = b := by
  cases b <;> rfl

theorem validCron_eq_self_iff (R : Runtime) (cron : Option JsString) (place : JsString) :
    (validCron R cron place).value = cron ↔ ∀ c ∈ cron, c ≠ [] ∧ R.isValidCron c = true := by
  cases cron with
  | none => simp [validCron, given]
  | some c =>
    cases c with
    | nil => simp [validCron, given]
    | cons x xs =>
      cases hvalid : R.isValidCron (x :: xs) with
      | false => simp [validCron, given, hvalid]
      | true => simp [validCron, given, hvalid]

theorem importRootDirectory_eq_self_iff (root : Option JsString) (place : JsString) :
    (importRootDirectory root place).value = root ↔ ∀ r ∈ root, isValidRootDirectory r = true := by
  cases root with
  | none => simp [importRootDirectory, normalizeRootDirectory, given]
  | some r =>
    have hnil : isValidRootDirectory [] = false := rfl
    constructor
    · intro h s hs
      obtain rfl := some.inj hs
      unfold importRootDirectory normalizeRootDirectory at h
      rw [map_some] at h
      split at h
      · cases h
      · rename_i t ht
        obtain ⟨ht, -⟩ := given_eq_some.mp ht
        split at h
        · rename_i hvalid
          rwa [← some.inj h]
        · cases h
    · intro h
      have hvalid := h r rfl
      have hne : r ≠ [] := by
        rintro rfl
        rw [hnil] at hvalid
        cases hvalid
      simp [importRootDirectory, normalizeRootDirectory, trim_of_isValidRootDirectory hvalid,
        given_some hne,
        hvalid]

/-- A generated slug never passes for one that is too long. -/
theorem freeSlug_eq_self_iff (s g : Volumes.Slug) (hg : g.text.length ≤ 64) :
    freeSlug (some s.text) false g = s ↔ s.text.length ≤ 64 := by
  unfold freeSlug
  rw [given_some s.valid.1]
  by_cases hlen : s.text.length ≤ 64
  · have hall : s.text.length ≤ 64 ∧ s.text ≠ [] ∧ s.text.all Volumes.isSlugUnit = true := ⟨hlen, s.valid⟩
    refine iff_of_true ?_ hlen
    simp only [dif_pos hall, Bool.false_eq_true, if_false]
  · refine iff_of_false ?_ hlen
    simp only [hlen, false_and, dif_neg, not_false_eq_true]
    rintro rfl
    exact hlen hg

theorem importSlug_iff (R : Runtime) {taken : Bool} (h : taken = false) (column : JsString)
    (s : Volumes.Slug)
    (name place : JsString) :
    (importSlug R column taken s.text name place).value = s ↔ s.text.length ≤ 64 := by
  rw [h]
  exact freeSlug_eq_self_iff s _ (Nat.le_trans (R.slugify_length name) (by decide))

/-! ## References -/

/-- The name a reference travels by is known on the other instance. -/
def Resolves (d e : Directory) (id : Option Id) : Prop := ∀ n ∈ d.ref id, (e.idOf n).isSome = true

instance (d e : Directory) (id : Option Id) : Decidable (Resolves d e id) :=
  inferInstanceAs (Decidable (∀ n ∈ d.ref id, _))

@[simp] theorem Directory.ref_none (d : Directory) : d.ref none = none := rfl

@[simp] theorem Directory.ref_some (d : Directory) (id : Id) : d.ref (some id) = d.nameOf id := rfl

variable {name : JsString} {rows : List Named} {id : Id}

theorem mem_of_idByName (h : idByName rows name = some id) :
    ∃ r ∈ rows, r.name = name ∧ r.id = id := by
  obtain ⟨r, hr, hid⟩ := map_eq_some_iff.mp h
  exact ⟨r, mem_reverse.mp (List.mem_of_find?_eq_some hr), by simpa using List.find?_some hr, hid⟩

theorem isSome_idByName {r : Named} (h : r ∈ rows) : (idByName rows r.name).isSome = true := by
  simp only [idByName, isSome_map, List.find?_isSome, mem_reverse]
  exact ⟨r, h, decide_eq_true rfl⟩

variable {d : Directory}

theorem nameOf_of_idOf (h : d.idOf name = some id) : d.nameOf id = some name := by
  obtain ⟨r, hr, rfl, rfl⟩ := mem_of_idByName h
  unfold Directory.nameOf
  rw [Table.get_of_mem d.ids hr, map_some]

theorem resolve_value (kind : JsString) (d : Directory) (name : Option JsString) (place : JsString) :
    (resolve kind d name place).value = (given name).bind d.idOf := by
  unfold resolve
  cases given name with
  | none => rfl
  | some n =>
    cases hid : d.idOf n with
    | none => simp [hid]
    | some id => simp [hid]

theorem ref_bind_idOf {name : Option JsString} (h : ∀ n ∈ name, (d.idOf n).isSome = true) :
    d.ref (name.bind d.idOf) = name := by
  cases name with
  | none => rfl
  | some n =>
    obtain ⟨id, hid⟩ := isSome_iff_exists.mp (h n rfl)
    rw [bind_some, hid]
    exact nameOf_of_idOf hid

/-- A known name is found again, unless it is empty. -/
theorem ref_resolve_iff {e : Directory} {id : Option Id} (held : Resolves d e id)
    (kind place : JsString) :
    e.ref (resolve kind e (d.ref id) place).value = d.ref id ↔ d.ref id ≠ some [] := by
  have hheld : ∀ n ∈ given (d.ref id), (e.idOf n).isSome = true :=
      fun n hn => held n (given_eq_some.mp hn).1
  rw [resolve_value, ref_bind_idOf hheld, given_eq_self_iff]

/-! ## Host ports -/

/-- What an `integer` column holds and a request may ask for. -/
def PortFits (port : Option Nat) : Prop := ∀ n ∈ port, n ≠ 0 ∧ n < 2147483648

instance (port : Option Nat) : Decidable (PortFits port) :=
  inferInstanceAs (Decidable (∀ n ∈ port, _))

def Instance.claimed (R : Runtime) (T : Instance) : List Nat :=
    HostPorts.claimed R.integerInput T.portRows

variable {R : Runtime} {T : Instance}

variable {p : HostPorts.PortValue}

theorem not_taken_of_not_claimed {n : Nat} (hp : HostPorts.asInteger R.integerInput p = some n)
    (hn : n ∉ T.claimed R) : HostPorts.taken T.portRows p n = false := by
  rw [Bool.eq_false_iff]
  intro htaken
  apply hn
  simp only [HostPorts.taken, Bool.or_eq_true, List.any_eq_true, decide_eq_true_eq] at htaken
  simp only [Instance.claimed, HostPorts.claimed, HostPorts.appPorts, HostPorts.dbPorts,
    HostPorts.stackPorts,
    HostPorts.portsOf, mem_append, mem_filterMap, mem_flatMap]
  rcases htaken with (⟨a, ha, hport⟩ | ⟨x, hx, hport⟩) | ⟨st, hst, q, hq, rfl⟩
  · exact Or.inl (Or.inl (Or.inl ⟨a, ha, hport⟩))
  · exact Or.inl (Or.inl (Or.inr ⟨x, hx, hport⟩))
  · exact Or.inr ⟨st, hst, q, hq, hp⟩

theorem importHostPort_iff {port : Option Nat} (free : ∀ n ∈ port, n ∉ T.claimed R)
    (place : JsString) :
    (∃ r, importHostPort R T (port.map .number) place = some r ∧ r.value = port) ↔ PortFits port := by
  cases port with
  | none => simp [importHostPort, HostPorts.freeHostPort, PortFits]
  | some n =>
    by_cases hzero : n = 0
    · subst hzero
      simp [importHostPort, HostPorts.freeHostPort, HostPorts.PortValue.falsy, PortFits]
    · by_cases hlt : n < 2147483648
      · have hint := @HostPorts.asInteger_number R.integerInput _ _ rfl hlt
        have htaken := not_taken_of_not_claimed hint (free n rfl)
        simp [importHostPort, HostPorts.freeHostPort, HostPorts.PortValue.falsy, PortFits, hzero,
          hlt, hint, htaken]
      · simp [importHostPort, HostPorts.freeHostPort, HostPorts.PortValue.falsy, PortFits, hzero, hlt,
          HostPorts.asInteger]

/-- Every port of a stack is one and is a number to PostgreSQL. -/
def PortsFit (R : Runtime) (ports : List ServicePort) : Prop :=
  ∀ p ∈ ports, p.hostPort.falsy = false ∧ (HostPorts.asInteger R.integerInput p.hostPort).isSome = true

instance (R : Runtime) (ports : List ServicePort) : Decidable (PortsFit R ports) :=
  inferInstanceAs (Decidable (∀ p ∈ ports, _))

def portNumbers (R : Runtime) (ports : List ServicePort) : List Nat :=
  ports.filterMap fun p => HostPorts.asInteger R.integerInput p.hostPort

theorem freeHostPort_kept_iff (free : ∀ n ∈ HostPorts.asInteger R.integerInput p, n ∉ T.claimed R)
    (place : JsString) :
    (∃ r, HostPorts.freeHostPort R.integerInput T.portRows (some p) place = some r ∧ r.1.isSome = true) ↔
      p.falsy = false ∧ (HostPorts.asInteger R.integerInput p).isSome = true := by
  unfold HostPorts.freeHostPort
  cases hfalsy : p.falsy with
  | true => simp [hfalsy]
  | false =>
    cases hint : HostPorts.asInteger R.integerInput p with
    | none => simp [hfalsy, hint]
    | some n =>
      have htaken := not_taken_of_not_claimed hint (free n hint)
      simp [hfalsy, hint, htaken]

variable {place : JsString} {r : Noted (List ServicePort)}

theorem importServicePorts_cons {p : ServicePort} {ps : List ServicePort}
    (h : importServicePorts R T (p :: ps) place = some r) :
    ∃ one rest, HostPorts.freeHostPort R.integerInput T.portRows (some p.hostPort) place = some one ∧
      importServicePorts R T ps place = some rest ∧
      r.value = if one.1.isSome then p :: rest.value else rest.value := by
  simp only [importServicePorts, bind_eq_bind, bind_eq_some_iff] at h
  obtain ⟨one, hone, rest, hrest, hr⟩ := h
  obtain rfl := some.inj hr
  exact ⟨one, rest, hone, hrest, rfl⟩

variable {ports : List ServicePort}

theorem length_importServicePorts (h : importServicePorts R T ports place = some r) :
    r.value.length ≤ ports.length := by
  induction ports generalizing r with
  | nil =>
    obtain rfl := some.inj h
    exact Nat.le_refl _
  | cons p ps ih =>
    obtain ⟨one, rest, -, hrest, hr⟩ := importServicePorts_cons h
    have hle := ih hrest
    rw [hr]
    split
    · exact Nat.succ_le_succ hle
    · exact Nat.le_succ_of_le hle

theorem importServicePorts_iff (free : List.Disjoint (T.claimed R) (portNumbers R ports))
    (place : JsString) :
    (∃ r, importServicePorts R T ports place = some r ∧ r.value = ports) ↔ PortsFit R ports := by
  induction ports with
  | nil => simp [importServicePorts, PortsFit]
  | cons p ps ih =>
    have hp : ∀ n ∈ HostPorts.asInteger R.integerInput p.hostPort, n ∉ T.claimed R := by
      intro n hn hclaimed
      exact free hclaimed (mem_filterMap.mpr ⟨p, mem_cons_self, hn⟩)
    have hps : List.Disjoint (T.claimed R) (portNumbers R ps) := by
      intro n hclaimed hn
      obtain ⟨q, hq, hqn⟩ := mem_filterMap.mp hn
      exact free hclaimed (mem_filterMap.mpr ⟨q, mem_cons_of_mem _ hq, hqn⟩)
    unfold PortsFit
    rw [forall_mem_cons, ← freeHostPort_kept_iff hp place]
    refine Iff.trans ?_ (and_congr Iff.rfl (ih hps))
    constructor
    · rintro ⟨r, h, hr⟩
      obtain ⟨one, rest, hone, hrest, hvalue⟩ := importServicePorts_cons h
      rw [hr] at hvalue
      split at hvalue
      · rename_i hsome
        exact ⟨⟨one, hone, hsome⟩, rest, hrest, (List.cons.inj hvalue).2.symm⟩
      · -- a dropped port would leave the list too short
        have hle := length_importServicePorts hrest
        rw [← hvalue, length_cons] at hle
        omega
    · rintro ⟨⟨one, hone, hsome⟩, rest, hrest, hvalue⟩
      refine ⟨⟨p :: ps, one.2 ++ rest.warnings⟩, ?_, rfl⟩
      simp [importServicePorts, hone, hrest, hsome, hvalue]

/-! ## Secret sources -/

/-- A secret source, its connection by name; `none` without a connection. -/
structure SecretConfig where
  connection : JsString
  (projectId environment : Option JsString)
  path : JsString
  sync : Bool

def secretConfig (d : Directories) (s : SecretColumns) : Option SecretConfig :=
  (d.secretConnections.ref s.connectionId).map fun n => ⟨n, s.projectId, s.environment, s.path, s.sync⟩

/-- The location of a source that has a connection passes the checks. -/
def SecretPortable (d : Directories) (s : SecretColumns) : Prop :=
  (d.secretConnections.ref s.connectionId).isSome = true →
    s.projectId.any (isSecretName 100) = true ∧ s.environment.any (isSecretName 64) = true ∧
      isValidSecretPath s.path = true

instance (d : Directories) (s : SecretColumns) : Decidable (SecretPortable d s) :=
  inferInstanceAs (Decidable (_ → _ ∧ _ ∧ _))

theorem secretConfig_iff {d e : Directories} {s : SecretColumns}
    (held : Resolves d.secretConnections e.secretConnections s.connectionId) (place : JsString) :
    secretConfig e (importedSecretSource e.secretConnections (exportSecretSource d s) place).value =
      secretConfig d s ↔ SecretPortable d s := by
  unfold SecretPortable
  have hoff : secretConfig e noSecretSource = none := rfl
  cases hn : d.secretConnections.ref s.connectionId with
  | none =>
    have hexport : exportSecretSource d s = none := by simp [exportSecretSource, hn]
    have hsource : secretConfig d s = none := by simp [secretConfig, hn]
    rw [hexport, hsource]
    exact iff_of_true hoff nofun
  | some n =>
    obtain ⟨id, hid⟩ := isSome_iff_exists.mp (held n hn)
    have hsource : secretConfig d s = some ⟨n, s.projectId, s.environment, s.path, s.sync⟩ := by
      simp [secretConfig, hn]
    rw [hsource]
    cases hproject : given s.projectId with
    | none =>
      -- without a project there is nothing to export
      have hexport : exportSecretSource d s = none := by simp [exportSecretSource, hn, hproject]
      have hany : s.projectId.any (isSecretName 100) = false := by
        cases hp : s.projectId with
        | none => rfl
        | some p =>
          rw [hp] at hproject
          cases p with
          | nil => rfl
          | cons c cs => cases hproject
      rw [hexport, hany]
      refine iff_of_false nofun ?_
      intro h
      cases (h rfl).1
    | some p =>
      obtain ⟨hp, -⟩ := given_eq_some.mp hproject
      have hexport : exportSecretSource d s = some ⟨n, p, s.environment.getD [],
          (given (some s.path)).getD (js "/"), s.sync⟩ := by simp [exportSecretSource, hn, hproject]
      rw [hexport, hp, any_some]
      have hpath : (given (some s.path)).getD (js "/") = s.path ↔ s.path ≠ [] :=
        @orText_eq_self_iff s.path (js "/") nofun
      have hslash : s.path = [] → isValidSecretPath s.path = false := by
        intro h
        rw [h]
        rfl
      have htwice : orText ((given (some s.path)).getD (js "/")) (js "/") =
          (given (some s.path)).getD (js "/") := by
        cases s.path <;> rfl
      simp only [importedSecretSource, hid, htwice]
      split
      · rename_i hchecks
        simp only [Bool.and_eq_true] at hchecks
        simp only [secretConfig, Directory.ref_some, nameOf_of_idOf hid, map_some,
          some.injEq, SecretConfig.mk.injEq, true_and, and_true, isSome_some,
          forall_true_left, hpath,
          hchecks.1.1]
        constructor
        · rintro ⟨henv, hne⟩
          rw [hpath.mpr hne] at hchecks
          rw [← henv]
          exact ⟨hchecks.1.2, hchecks.2⟩
        · rintro ⟨henv, hvalid⟩
          refine ⟨?_, fun h => by rw [hslash h] at hvalid; cases hvalid⟩
          cases he : s.environment with
          | none =>
            rw [he] at henv
            cases henv
          | some env => rfl
      · rename_i hchecks
        refine iff_of_false (by rw [hoff]; nofun) ?_
        intro h
        obtain ⟨hname, henv, hvalid⟩ := h rfl
        apply hchecks
        have hne : s.path ≠ [] := by
          intro h
          rw [hslash h] at hvalid
          cases hvalid
        rw [hpath.mpr hne]
        cases he : s.environment with
        | none =>
          rw [he] at henv
          cases henv
        | some env =>
          rw [he, any_some] at henv
          simp [hname, henv, hvalid]

/-! ## Monitors and alert rules -/

/-- A monitor within the limits of a request. -/
def MonitorPortable (m : Monitor.Config) : Prop :=
  validateMonitorPath m.path = none ∧ (1 ≤ m.intervalMinutes ∧ m.intervalMinutes ≤ 60) ∧
    (1 ≤ m.timeoutSeconds ∧ m.timeoutSeconds ≤ 30) ∧ (parseExpectedCodes m.expectedCodes).isSome = true ∧
    (1 ≤ m.failureThreshold ∧ m.failureThreshold ≤ 10)

instance (m : Monitor.Config) : Decidable (MonitorPortable m) :=
  inferInstanceAs (Decidable (_ ∧ (_ ∧ _) ∧ (_ ∧ _) ∧ _ ∧ (_ ∧ _)))

theorem saveRow_none_config (input : Monitor.ConfigPatch) :
    (Monitor.saveRow none input).1.config = Monitor.defaultConfig.assign input := by
  unfold Monitor.saveRow
  dsimp only
  split
  · rfl
  · split <;> rfl

/-- The defaults pass their own checks, so that a value stays only when it passes too. -/
theorem importMonitor_eq_self_iff (monitor : Option Monitor.Config) (place : JsString) :
    (importMonitor monitor place).value = monitor ↔ ∀ m ∈ monitor, MonitorPortable m := by
  cases monitor with
  | none => simp [importMonitor]
  | some m =>
    have hpath : (if (validateMonitorPath m.path).isSome = true then Monitor.defaultConfig.path else m.path) =
        m.path ↔ validateMonitorPath m.path = none := by
      have hdefault : validateMonitorPath Monitor.defaultConfig.path = none := by decide
      cases hm : validateMonitorPath m.path with
      | none => simp
      | some e =>
        refine iff_of_false ?_ nofun
        intro h
        rw [← show Monitor.defaultConfig.path = m.path from h, hdefault] at hm
        cases hm
    have hcodes : (if (parseExpectedCodes m.expectedCodes).isSome = true then m.expectedCodes
        else Monitor.defaultConfig.expectedCodes) = m.expectedCodes ↔
        (parseExpectedCodes m.expectedCodes).isSome = true := by
      have hdefault : (parseExpectedCodes Monitor.defaultConfig.expectedCodes).isSome = true := by decide
      split
      · rename_i hsome
        exact iff_of_true rfl hsome
      · rename_i hnone
        refine iff_of_false ?_ hnone
        intro h
        rw [h] at hdefault
        exact hnone hdefault
    simp only [importMonitor, saveRow_none_config, Monitor.Config.assign, getD_some, some.injEq,
      mem_some_iff, forall_eq', MonitorPortable]
    conv_lhs => rhs; rw [show m = ⟨m.enabled, m.path, m.intervalMinutes, m.timeoutSeconds, m.expectedCodes,
      m.failureThreshold, m.useInternal⟩ from rfl]
    rw [Monitor.Config.mk.injEq, hpath, hcodes, inRange_eq_self_iff (by decide),
      inRange_eq_self_iff (by decide),
      inRange_eq_self_iff (by decide)]
    simp only [true_and, and_true]

/-- The rule in effect: without a row, the default. -/
structure RulesConfig where
  (cpu memory : Alerts.RuleConfig)

def rulesConfig (r : Rules) : RulesConfig :=
    ⟨r.cpu.getD Alerts.defaultRule, r.memory.getD Alerts.defaultRule⟩

def RulePortable (most : Nat) (r : Alerts.RuleConfig) : Prop :=
  (1 ≤ r.thresholdPercent ∧ r.thresholdPercent ≤ most) ∧ (1 ≤ r.durationMinutes ∧ r.durationMinutes ≤ 120)

instance (most : Nat) (r : Alerts.RuleConfig) : Decidable (RulePortable most r) :=
  inferInstanceAs (Decidable ((_ ∧ _) ∧ (_ ∧ _)))

/-- The percentages of a limit go up to 100, those of a core up to 1000. -/
def RulesPortable (r : Rules) : Prop :=
  RulePortable 1000 (rulesConfig r).cpu ∧ RulePortable 100 (rulesConfig r).memory

instance (r : Rules) : Decidable (RulesPortable r) := inferInstanceAs (Decidable (_ ∧ _))

theorem importRule_eq_self_iff (metric : Alerts.Metric) (r : Alerts.RuleConfig) (place : JsString) :
    ((importRule metric r place).value).getD Alerts.defaultRule = r ↔
      RulePortable (if metric = .memory then 100 else 1000) r := by
  have hdefault : Alerts.defaultRule.thresholdPercent = 90 := rfl
  -- the threshold that is saved is never refused
  have hfits : ¬ (metric = .memory ∧ 100 < inRange r.thresholdPercent 1 (if metric = .memory then 100 else 1000)
      Alerts.defaultRule.thresholdPercent) := by
    rintro ⟨rfl, h⟩
    rw [if_pos rfl, hdefault] at h
    unfold inRange at h
    split at h <;> omega
  simp only [importRule, Alerts.saveRule, getD_some, if_neg hfits, Alerts.nextConfig,
    Except.toOption,
    map_some]
  conv_lhs => rhs; rw [show r = ⟨r.enabled, r.thresholdPercent, r.durationMinutes⟩ from rfl]
  rw [Alerts.RuleConfig.mk.injEq, inRange_eq_self_iff (by rw [hdefault]; split <;> decide),
    inRange_eq_self_iff (by decide), RulePortable]
  simp only [true_and]

theorem rulesConfig_iff (r : Rules) (place : JsString) :
    rulesConfig (importRules (exportRules r) place).value = rulesConfig r ↔ RulesPortable r := by
  unfold exportRules RulesPortable
  split
  · rename_i hnone
    simp only [Bool.and_eq_true, isNone_iff_eq_none] at hnone
    simp only [importRules, rulesConfig, hnone, getD_none, true_iff]
    decide
  · have hcpu := importRule_eq_self_iff .cpu (rulesConfig r).cpu place
    have hmemory := importRule_eq_self_iff .memory (rulesConfig r).memory place
    simp only [reduceCtorEq, if_false, if_true] at hcpu hmemory
    rw [← hcpu, ← hmemory, ← RulesConfig.mk.injEq]
    rfl

/-! ## Domains -/

/-- A domain, its DNS connection by name. -/
structure DomainConfig where
  host : JsString
  https : Bool
  certMode : CertMode
  dns : Option DnsSettings

def domainConfig (d : Directories) (x : Domain) : DomainConfig where
  host := x.host
  https := x.https
  certMode := x.certMode
  dns := (d.dnsConnections.ref x.dnsConnectionId).map fun n => ⟨n, x.dnsProxied⟩

/-- A certificate over DNS-01 is one the proxy of the other instance can get. -/
def DomainPortable (d : Directories) (dnsBound : Bool) (x : Domain) : Prop :=
  (x.certMode = .http ∨ (x.https = true ∧ dnsBound = true)) ∧
    d.dnsConnections.ref x.dnsConnectionId ≠ some []

instance (d : Directories) (dnsBound : Bool) (x : Domain) : Decidable (DomainPortable d dnsBound x) :=
  inferInstanceAs (Decidable ((_ ∨ (_ ∧ _)) ∧ ¬ _))

theorem importDomain_iff {d : Directories} {x : Domain}
    (held : Resolves d.dnsConnections T.directories.dnsConnections x.dnsConnectionId)
    (serverId : Option Id) (place : JsString) :
    domainConfig T.directories (importDomain T serverId (exportDomain d x) place).value =
      domainConfig d x ↔
      DomainPortable d (T.dnsBound serverId) x := by
  have hmode : (if (decide (x.certMode = .http) || (x.https && T.dnsBound serverId)) = true then x.certMode
      else CertMode.http) = x.certMode ↔
        x.certMode = .http ∨ (x.https = true ∧ T.dnsBound serverId = true) := by
    split
    · rename_i hallowed
      exact iff_of_true rfl (by simpa using hallowed)
    · rename_i hallowed
      simp only [Bool.or_eq_true, decide_eq_true_eq, Bool.and_eq_true] at hallowed
      exact iff_of_false (fun h => hallowed (Or.inl h.symm)) hallowed
  unfold DomainPortable
  rw [← hmode, domainConfig, domainConfig, DomainConfig.mk.injEq]
  cases hn : d.dnsConnections.ref x.dnsConnectionId with
  | none => simp [importDomain, exportDomain, hn]
  | some n =>
    cases n with
    | nil => simp [importDomain, exportDomain, hn, given]
    | cons c cs =>
      obtain ⟨id, hid⟩ := isSome_iff_exists.mp (held _ hn)
      simp [importDomain, exportDomain, hn, given, hid, nameOf_of_idOf hid]

variable {hosts : List JsString}

theorem importDomains_free (T : Instance) (serverId : Option Id) (place : JsString)
    {xs : List ExportedDomain} (free : (hosts ++ xs.map ExportedDomain.host).Nodup) :
    (importDomains T serverId place hosts xs).value =
      xs.map fun x => (importDomain T serverId x place).value := by
  induction xs generalizing hosts with
  | nil => rfl
  | cons x xs ih =>
    have hnew : x.host ∉ hosts := by
      intro h
      exact (nodup_append.mp free).2.2 _ h _ mem_cons_self rfl
    have hrest : ((hosts ++ [x.host]) ++ xs.map ExportedDomain.host).Nodup := by
      rw [append_assoc]
      exact free
    simp only [importDomains, if_neg hnew, map_cons, ih hrest]

theorem importDomains_iff {d : Directories} {xs : List Domain}
    (held : ∀ x ∈ xs, Resolves d.dnsConnections T.directories.dnsConnections x.dnsConnectionId)
    (free : (hosts ++ xs.map Domain.host).Nodup) (serverId : Option Id) (place : JsString) :
    (importDomains T serverId place hosts (xs.map (exportDomain d))).value.map (domainConfig T.directories) =
      xs.map (domainConfig d) ↔ ∀ x ∈ xs, DomainPortable d (T.dnsBound serverId) x := by
  have hfree : (hosts ++ (xs.map (exportDomain d)).map ExportedDomain.host).Nodup := by
    rw [List.map_map]
    exact free
  rw [importDomains_free T serverId place hfree, List.map_map, List.map_map, List.map_inj_left]
  exact forall₂_congr fun x hx => importDomain_iff (held x hx) serverId place

/-! ## Mounts -/

/-- A mount as adding one makes it, and one the importer may bring along. -/
def MountPortable (role : JsString) (m : Mount) : Prop :=
  m.service = none ∧ normalizePath m.containerPath = m.containerPath ∧
    match m.type with
    | .volume => (given m.name).isSome = true ∧ m.hostPath = none ∧ m.content = none
    | .bind => mayBind role = true ∧ m.name = none ∧ m.content = none ∧
        m.hostPath.any (fun h => normalizePath h = h) = true
    | .file => (given m.name).isSome = true ∧ m.hostPath = none ∧ m.content.isSome = true ∧
        m.readOnly = true

instance (role : JsString) (m : Mount) : Decidable (MountPortable role m) := by
  unfold MountPortable
  cases m.type <;> infer_instance

theorem mountName_eq_some_iff (name : Option JsString) (path : JsString) :
    some (mountName name path) = name ↔ (given name).isSome = true := by
  cases hgiven : given name with
  | none =>
    refine iff_of_false ?_ nofun
    intro h
    have hname := mountName_ne_nil name path
    rw [given_eq_some.mpr ⟨h.symm, hname⟩] at hgiven
    cases hgiven
  | some n =>
    obtain ⟨rfl, -⟩ := given_eq_some.mp hgiven
    simp [mountName, hgiven]

theorem mountType_mountTypeText (t : MountType) : mountType (mountTypeText t) = some t := by
  cases t <;> decide

theorem mountTypeText_eq_bind_iff (t : MountType) : mountTypeText t = js "bind" ↔ t = .bind := by
  cases t <;> decide

/-- The row an importer who may bring the mount gets. -/
theorem importMount_row {role : JsString} (place : JsString) {m : Mount} (hpath : m.containerPath ≠ [])
    (hmay : m.type = .bind → mayBind role = true) :
    importMount role place (exportMount m) = .row (rowFor m.type (exportMount m) m.containerPath) := by
  have hallowed : ¬ ((exportMount m).type = js "bind" ∧ mayBind role = false) := by
    rintro ⟨hbind, hnot⟩
    rw [hmay ((mountTypeText_eq_bind_iff m.type).mp hbind)] at hnot
    cases hnot
  unfold importMount
  rw [if_neg hallowed, show (exportMount m).type = mountTypeText m.type from rfl, mountType_mountTypeText,
    show (exportMount m).containerPath = some m.containerPath from rfl, given_some hpath]

theorem importMount_iff (role place : JsString) (m : Mount) :
    importMount role place (exportMount m) = .row m ↔ MountPortable role m := by
  by_cases hpath : m.containerPath = []
  · refine iff_of_false ?_ ?_
    · unfold importMount
      rw [show given (exportMount m).containerPath = none by rw [exportMount, hpath]; rfl]
      split
      · nofun
      · cases mountType (exportMount m).type <;> nofun
    · rintro ⟨-, h, -⟩
      rw [hpath] at h
      revert h
      decide
  · by_cases hmay : m.type = .bind → mayBind role = true
    · rw [importMount_row place hpath hmay, Outcome.row.injEq]
      obtain ⟨type, service, name, hostPath, content, containerPath, readOnly⟩ := m
      cases type with
      | volume =>
        simp only [rowFor, exportMount, MountPortable, Mount.mk.injEq, mountName_eq_some_iff,
          reduceCtorEq, if_false,
          getD_some]
        grind
      | bind =>
        have hrole := hmay rfl
        have hhost : some (normalizePath (hostPath.getD (js "/"))) = hostPath ↔
            hostPath.any (fun h => normalizePath h = h) = true := by
          cases hostPath <;> simp
        simp only [rowFor, exportMount, MountPortable, Mount.mk.injEq, reduceCtorEq, if_false, if_true,
          getD_some, hhost]
        grind
      | file =>
        have hcontent : some (content.getD []) = content ↔ content.isSome = true := by
          cases content <;> simp
        simp only [rowFor, exportMount, MountPortable, Mount.mk.injEq, mountName_eq_some_iff,
          reduceCtorEq, if_false,
          if_true, hcontent]
        grind
    · obtain ⟨hbind, hnot⟩ := Classical.not_imp.mp hmay
      refine iff_of_false ?_ ?_
      · unfold importMount
        rw [if_pos ⟨(mountTypeText_eq_bind_iff m.type).mpr hbind, eq_false_of_ne_true hnot⟩]
        nofun
      · unfold MountPortable
        rw [hbind]
        exact fun h => hnot h.2.2.1

/-- Rows are only added, at most one for each entry. -/
theorem importMounts_grows (role place : JsString) (saved : List Mount) (ms : List ExportedMount) :
    saved <+: (importMounts role place saved ms).saved ∧
      (importMounts role place saved ms).saved.length ≤ saved.length + ms.length := by
  induction ms generalizing saved with
  | nil => exact ⟨prefix_rfl, Nat.le_refl _⟩
  | cons m ms ih =>
    rw [importMounts]
    split
    · obtain ⟨hgrown, hle⟩ := ih saved
      exact ⟨hgrown, Nat.le_succ_of_le hle⟩
    · rename_i x hx
      split
      · exact ⟨prefix_rfl, Nat.le_add_right _ _⟩
      · obtain ⟨hgrown, hle⟩ := ih (saved ++ [x])
        rw [length_append, length_singleton] at hle
        exact ⟨(prefix_append saved [x]).trans hgrown, by rw [length_cons]; omega⟩

theorem importMounts_iff (role place : JsString) {saved : List Mount}
    (hsaved : (saved.map Mount.containerPath).Nodup) (ms : List Mount) :
    (importMounts role place saved (ms.map exportMount)).failed = false ∧
        (importMounts role place saved (ms.map exportMount)).saved = saved ++ ms ↔
      ((saved ++ ms).map Mount.containerPath).Nodup ∧ ∀ m ∈ ms, MountPortable role m := by
  induction ms generalizing saved with
  | nil => simp [importMounts, hsaved]
  | cons m ms ih =>
    rw [map_cons, importMounts, forall_mem_cons, ← importMount_iff role place m]
    cases hm : importMount role place (exportMount m) with
    | skipped w =>
      refine iff_of_false ?_ (fun h => by cases h.2.1)
      rintro ⟨-, h⟩
      have hle := (importMounts_grows role place saved (ms.map exportMount)).2
      have hlen := congrArg List.length h
      simp only [length_append, length_cons, length_map] at hle hlen
      omega
    | row x =>
      by_cases hin : x.containerPath ∈ saved.map Mount.containerPath
      · -- the path is there already, which ends the import
        simp only [if_pos hin]
        refine iff_of_false (fun h => by cases h.1) ?_
        rintro ⟨hnodup, hrow, -⟩
        obtain rfl := Outcome.row.inj hrow
        rw [map_append] at hnodup
        exact (nodup_append.mp hnodup).2.2 _ hin _ mem_cons_self rfl
      · simp only [if_neg hin]
        by_cases hx : x = m
        · have hrest := ih (Table.concat_keys_nodup hsaved hin)
          rw [append_assoc, hx, singleton_append] at hrest
          rw [hx, hrest]
          simp only [true_and]
        · refine iff_of_false ?_ (fun h => hx (Outcome.row.inj h.2.1))
          rintro ⟨-, h⟩
          have hgrown := (importMounts_grows role place (saved ++ [x]) (ms.map exportMount)).1
          rw [h, prefix_append_right_inj] at hgrown
          exact hx (cons_prefix_cons.mp hgrown).1

/-! ## Jobs -/

/-- A job that has a name and a command, and whose schedule the scheduler accepts.  Only a
stack's job belongs to a service. -/
def JobPortable (R : Runtime) (compose : Bool) (j : Job) : Prop :=
  (j.name ≠ [] ∧ trim j.name = j.name) ∧ j.command ≠ [] ∧
    (∀ c ∈ j.cron, c ≠ [] ∧ trim c = c ∧ R.isValidCron c = true) ∧
    if compose then j.service ≠ some [] else j.service = none

instance (R : Runtime) (compose : Bool) (j : Job) : Decidable (JobPortable R compose j) :=
  inferInstanceAs (Decidable ((_ ∧ _) ∧ _ ∧ (∀ c ∈ j.cron, _) ∧ ite _ _ _))

theorem importJob_iff (R : Runtime) (compose : Bool) (place : JsString) (j : Job) :
    (importJob R compose (exportJob j) place).value = some j ↔ JobPortable R compose j := by
  have hservice : (if compose = true then given j.service else none) = j.service ↔
      if compose = true then j.service ≠ some [] else j.service = none := by
    split
    · exact given_eq_self_iff j.service
    · exact eq_comm
  have hcron : given (j.cron.map trim) = j.cron ↔ ∀ c ∈ j.cron, c ≠ [] ∧ trim c = c := by
    cases hj : j.cron with
    | none => exact iff_of_true rfl nofun
    | some c =>
      rw [map_some, given_eq_some]
      simp [and_comm]
  unfold importJob JobPortable
  by_cases hnone : j.name = [] ∨ j.command = []
  · rw [if_pos (show (exportJob j).name = [] ∨ (exportJob j).command = [] from hnone)]
    refine iff_of_false nofun ?_
    rintro ⟨⟨hname, -⟩, hcommand, -⟩
    exact hnone.elim hname hcommand
  · rw [if_neg (show ¬ ((exportJob j).name = [] ∨ (exportJob j).command = []) from hnone)]
    obtain ⟨hname, hcommand⟩ := not_or.mp hnone
    have hsplit : (∀ c ∈ j.cron, c ≠ [] ∧ trim c = c ∧ R.isValidCron c = true) ↔
        given (j.cron.map trim) = j.cron ∧ ∀ c ∈ j.cron, R.isValidCron c = true := by
      rw [hcron]
      grind
    rw [← hservice, hsplit]
    cases hinvalid : (given (j.cron.map trim)).any fun c => !R.isValidCron c with
    | true =>
      refine iff_of_false (by simp [buildJob, exportJob, hinvalid]) ?_
      rintro ⟨-, -, ⟨hself, hvalid⟩, -⟩
      rw [hself, Option.any_eq_true] at hinvalid
      obtain ⟨c, hc, hnot⟩ := hinvalid
      rw [hvalid c hc] at hnot
      cases hnot
    | false =>
      have hvalid : given (j.cron.map trim) = j.cron → ∀ c ∈ j.cron, R.isValidCron c = true := by
        intro hself c hc
        rw [hself, hc, any_some, Bool.not_eq_false_eq_eq_true] at hinvalid
        exact hinvalid
      have hbuild : buildJob R (exportJob j) (if compose = true then given j.service else none) =
          .ok ⟨trim j.name, given (j.cron.map trim), j.command, j.target, j.enabled, j.timeoutSeconds,
            if compose = true then given j.service else none⟩ := by
        simp [buildJob, exportJob, hinvalid]
      rw [show (exportJob j).service = given j.service from rfl, hbuild]
      simp only [some.injEq]
      conv_lhs => rhs; rw [show j = ⟨j.name, j.cron, j.command, j.target, j.enabled, j.timeoutSeconds, j.service⟩ from rfl]
      rw [Job.mk.injEq]
      constructor
      · rintro ⟨htrim, hself, -, -, -, -, hs⟩
        exact ⟨⟨hname, htrim⟩, hcommand, ⟨hself, hvalid hself⟩, hs⟩
      · rintro ⟨⟨-, htrim⟩, -, ⟨hself, -⟩, hs⟩
        exact ⟨htrim, hself, rfl, rfl, rfl, rfl, hs⟩

theorem importJobs_iff (R : Runtime) (compose : Bool) (jobs : List Job) (place : JsString) :
    (importJobs R compose (jobs.map exportJob) place).value = jobs ↔
      ∀ j ∈ jobs, JobPortable R compose j := by
  show (jobs.map exportJob).filterMap _ = jobs ↔ _
  rw [filterMap_map, Table.filterMap_eq_self_iff]
  exact forall₂_congr fun j _ => importJob_iff R compose place j

/-! ## Links to variable sets -/

/-- What the database keeps of variable sets: no two names differ only in case, and no
environment belongs to two sets. -/
structure SetsDistinct (R : Runtime) (sets : List VariableSet) : Prop where
  names : (sets.map fun s => R.lower s.name).Nodup
  environments : (sets.flatMap fun s => s.environments.map Named.id).Nodup

def LinkHeld (sets : List VariableSet) (l : ExportedLink) : Prop :=
  ∃ s ∈ sets, s.name = l.set ∧ ∃ e ∈ s.environments, e.name = l.environment

instance (sets : List VariableSet) (l : ExportedLink) : Decidable (LinkHeld sets l) :=
  inferInstanceAs (Decidable (∃ s ∈ sets, _))

/-- The set is shared with all projects, or the importer may share it. -/
def LinkAllowed (u : Importer) (sets : List VariableSet) (l : ExportedLink) : Prop :=
  u.platform = true ∨ ∃ s ∈ sets, s.name = l.set ∧ s.sharedWithAll = true

instance (u : Importer) (sets : List VariableSet) (l : ExportedLink) : Decidable (LinkAllowed u sets l) :=
  inferInstanceAs (Decidable (_ ∨ ∃ s ∈ sets, _))

def LinksPortable (u : Importer) (sets : List VariableSet) (links : List ExportedLink) : Prop :=
  links.Nodup ∧ links.length ≤ Sharing.maxLinks ∧ ∀ l ∈ links, LinkAllowed u sets l

instance (u : Importer) (sets : List VariableSet) (links : List ExportedLink) :
    Decidable (LinksPortable u sets links) :=
  inferInstanceAs (Decidable (_ ∧ _ ∧ ∀ l ∈ links, _))

/-- No set of the file was created under a name that was there. -/
def SetIndex.Fresh (R : Runtime) (x : SetIndex) : Prop :=
  ∀ e ∈ x.created, ∀ s ∈ x.existing, R.lower s.name ≠ R.lower e.1

theorem importSets_fresh (R : Runtime) (existing : List VariableSet) (sets : List ExportedVariableSet) :
    SetIndex.Fresh R ⟨(importSets R existing sets).value, existing⟩ := by
  induction sets with
  | nil => exact nofun
  | cons s ss ih =>
    intro e he t ht
    simp only [importSets] at he
    split at he
    · exact ih e he t ht
    · split at he
      · exact ih e he t ht
      · rename_i hnone
        rcases mem_append.mp he with he | he
        · obtain ⟨c, -, rfl⟩ := map_eq_some_iff.mp (mem_toList.mp he)
          intro heq
          exact hnone (any_eq_true.mpr ⟨t, ht, decide_eq_true heq⟩)
        · exact ih e he t ht

variable {s : VariableSet}

theorem SetIndex.find_existing {x : SetIndex} (hsets : SetsDistinct R x.existing)
    (hfresh : x.Fresh R) (hs : s ∈ x.existing) : x.find R s.name = some (s, false) := by
  have hcreated : x.created.reverse.find? (fun e => R.lower e.1 = R.lower s.name) = none := by
    rw [List.find?_eq_none]
    intro e he heq
    exact hfresh e (mem_reverse.mp he) s hs (of_decide_eq_true heq).symm
  have hreverse : (x.existing.reverse.map fun s => R.lower s.name).Nodup := by
    rw [map_reverse]
    exact nodup_reverse.mpr hsets.names
  have hfound := Table.get_of_mem hreverse (mem_reverse.mpr hs)
  unfold SetIndex.find
  rw [hcreated]
  exact congrArg (Option.map fun s => (s, false)) hfound

theorem linkOf_of_mem {sets : List VariableSet}
    (h : (sets.flatMap fun s => s.environments.map Named.id).Nodup) (hs : s ∈ sets) {e : Named}
    (he : e ∈ s.environments) : linkOf sets e.id = some ⟨s.name, e.name⟩ := by
  induction sets with
  | nil => cases hs
  | cons t sets ih =>
    rw [flatMap_cons] at h
    obtain ⟨ht, hsets, hdisjoint⟩ := nodup_append.mp h
    unfold linkOf
    rw [List.findSome?_cons]
    rcases mem_cons.mp hs with rfl | hs
    · rw [Table.get_of_mem ht he]
      rfl
    · cases hget : Table.get Named.id t.environments e.id with
      | none => exact ih hsets hs
      | some e' =>
        obtain ⟨he', hid⟩ := Table.mem_of_get hget
        refine absurd hid (hdisjoint _ (mem_map_of_mem he') _ ?_)
        exact mem_flatMap.mpr ⟨s, hs, mem_map_of_mem he⟩

theorem linkOf_append {xs ys : List VariableSet} {l : ExportedLink} (h : linkOf xs id = some l) :
    linkOf (xs ++ ys) id = some l := by
  unfold linkOf at h ⊢
  rw [List.findSome?_append, h, some_or]

variable {u : Importer}

/-- A link that is allowed leads to an environment of its name; another is left out. -/
theorem importLink_spec {x : SetIndex} (hsets : SetsDistinct R x.existing) (hfresh : x.Fresh R)
    {l : ExportedLink} (hl : LinkHeld x.existing l) (place : JsString) :
    if LinkAllowed u x.existing l then ∃ id, (importLink R u x l place).value = some id ∧
      linkOf x.all id = some l
    else (importLink R u x l place).value = none := by
  obtain ⟨s, hs, hname, e, he, henv⟩ := hl
  have hfind : x.find R l.set = some (s, false) := hname ▸ x.find_existing hsets hfresh hs
  have honly : ∀ t ∈ x.existing, t.name = l.set → t = s := by
    intro t ht htname
    exact inj_on_of_nodup_map hsets.names ht hs (congrArg R.lower (htname.trans hname.symm))
  have hallowed : LinkAllowed u x.existing l ↔ (s.sharedWithAll || false || u.platform) = true := by
    rw [Bool.or_false, Bool.or_eq_true, or_comm]
    unfold LinkAllowed
    refine or_congr_right ?_
    constructor
    · rintro ⟨t, ht, htname, hshared⟩
      exact honly t ht htname ▸ hshared
    · exact fun h => ⟨s, hs, hname, h⟩
  unfold importLink
  rw [hfind]
  split
  · rename_i h
    rw [hallowed] at h
    obtain ⟨id, hid⟩ := isSome_iff_exists.mp (isSome_idByName he)
    obtain ⟨e', he', hename, rfl⟩ := mem_of_idByName hid
    rw [henv] at hid hename
    have hlink := linkOf_of_mem hsets.environments hs he'
    rw [hname, hename] at hlink
    exact ⟨e'.id, by simp only [if_pos h, hid], linkOf_append hlink⟩
  · rename_i h
    rw [hallowed] at h
    simp only [if_neg h]

theorem exportLinks_linksFor_iff {x : SetIndex} (hsets : SetsDistinct R x.existing)
    (hfresh : x.Fresh R) {links : List ExportedLink} (held : ∀ l ∈ links, LinkHeld x.existing l)
    (place : JsString) :
    exportLinks x.all (linksFor R u x (some links) place).value = links ↔
      LinksPortable u x.existing links := by
  have hspec := fun l hl => @importLink_spec R u x hsets hfresh l (held l hl) place
  have hallowed : ∀ l ∈ links, (importLink R u x l place).value.isSome = true ↔
      LinkAllowed u x.existing l := by
    intro l hl
    have := hspec l hl
    split at this
    · rename_i h
      obtain ⟨id, hid, -⟩ := this
      simp [hid, h]
    · rename_i h
      simp [this, h]
  have hback : ∀ l ∈ links, ∀ id ∈ (importLink R u x l place).value, linkOf x.all id = some l := by
    intro l hl id hid
    have := hspec l hl
    split at this
    · obtain ⟨id', hid', hlink⟩ := this
      rw [hid'] at hid
      exact some.inj hid ▸ hlink
    · rw [this] at hid
      cases hid
  refine (Grouping.roundTrip_iff hback).trans ?_
  unfold LinksPortable
  rw [forall₂_congr hallowed]

end Aoox.Transfer
