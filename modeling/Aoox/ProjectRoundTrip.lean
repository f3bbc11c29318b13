import Aoox.CarriedResources

/-! # A project through a file

A project is exported with its values and imported into an instance that knows what it
refers to and has its names, hosts and ports free.  The resources are imported one after the
other, and each adds its own names and ports to the instance: what stays true along the way
is that those still to come are free (`Free`), which holds of the next instance because the
resource before kept its configuration.  So the project keeps its configuration exactly when
every resource is portable (`carried_iff`).

A stack's mounts and the limits of its services are no part of the configuration compared
here: the file has no place for them.
-/
open List
namespace Aoox.Transfer

open JsString ImportedMounts FieldChecks

/-! ## One after the other -/

variable {T : Instance}

section Runs
variable {α β γ κ : Type} {one : Instance → β → Option (Noted γ)} {add : Instance → γ → Instance}

variable {r : Instance × Noted (List γ)}

theorem importAll_cons {b : β} {bs : List β} (h : importAll one add T (b :: bs) = some r) :
    ∃ y rest, one T b = some y ∧ importAll one add (add T y.value) bs = some rest ∧ r.1 = rest.1 ∧
      r.2.value = y.value :: rest.2.value := by
  simp only [importAll, Option.bind_eq_bind, Option.bind_eq_some_iff] at h
  obtain ⟨y, hy, rest, hrest, hr⟩ := h
  obtain rfl := Option.some.inj hr
  exact ⟨y, rest, hy, hrest, rfl, rfl⟩

variable {file : α → β} {before : α → κ} {after : γ → κ} (Inv : Instance → List α → Prop)

variable {as : List α}

/-- What holds of an instance and the entries to come, holds at the end of a run that kept every
configuration. -/
theorem importAll_inv (hadd : ∀ T a as c, Inv T (a :: as) → after c = before a → Inv (add T c) as)
    (h : Inv T as) (hr : importAll one add T (as.map file) = some r)
    (hsame : r.2.value.map after = as.map before) : Inv r.1 [] := by
  induction as generalizing T r with
  | nil =>
    obtain rfl := Option.some.inj hr
    exact h
  | cons a as ih =>
    obtain ⟨y, rest, -, hrest, hT, hvalue⟩ := importAll_cons hr
    rw [hvalue, map_cons, map_cons, List.cons.injEq] at hsame
    rw [hT]
    exact ih (hadd T a as y.value h hsame.1) hrest hsame.2

/-- A run keeps every configuration exactly when each entry keeps its own. -/
theorem importAll_iff {Good : α → Prop} (hone : ∀ T a as, Inv T (a :: as) →
      ((∃ y, one T (file a) = some y ∧ after y.value = before a) ↔ Good a))
    (hadd : ∀ T a as c, Inv T (a :: as) → after c = before a → Inv (add T c) as) (h : Inv T as) :
    (∃ r, importAll one add T (as.map file) = some r ∧ r.2.value.map after = as.map before) ↔
      ∀ a ∈ as, Good a := by
  induction as generalizing T with
  | nil => simp [importAll]
  | cons a as ih =>
    rw [forall_mem_cons]
    constructor
    · rintro ⟨r, hr, hsame⟩
      obtain ⟨y, rest, hy, hrest, -, hvalue⟩ := importAll_cons hr
      rw [hvalue, map_cons, map_cons, List.cons.injEq] at hsame
      exact ⟨(hone T a as h).mp ⟨y, hy, hsame.1⟩,
        (ih (hadd T a as y.value h hsame.1)).mp ⟨rest, hrest, hsame.2⟩⟩
    · rintro ⟨ha, has⟩
      obtain ⟨y, hy, hfirst⟩ := (hone T a as h).mpr ha
      obtain ⟨rest, hrest, hsame⟩ := (ih (hadd T a as y.value h hfirst)).mpr has
      refine ⟨(rest.1, ⟨y.value :: rest.2.value, y.warnings ++ rest.2.warnings⟩), ?_, ?_⟩
      · simp only [map_cons, importAll, hy, hrest, Option.bind_eq_bind, Option.bind_some]
        rfl
      · rw [map_cons, map_cons, hfirst, hsame]

end Runs

/-! ## What each resource leaves free -/

variable {a y : Application}

section Steps
variable {R : Runtime} {T : Instance}

theorem mem_claimed {n : Nat} :
    n ∈ T.claimed R ↔ (∃ a ∈ T.applications, n ∈ appPorts a) ∨ (∃ x ∈ T.databases, n ∈ databasePorts x) ∨
      ∃ c ∈ T.composeApps, n ∈ stackPorts R c := by
  simp only [Instance.claimed, HostPorts.claimed, HostPorts.appPorts, HostPorts.dbPorts,
    HostPorts.companionPorts,
    HostPorts.stackPorts, HostPorts.portsOf, Instance.portRows, appPorts, databasePorts, stackPorts,
    portNumbers,
    filterMap_nil, append_nil, mem_append, filterMap_map, flatMap_map,
    mem_filterMap,
    mem_flatMap, Option.mem_toList, Function.comp_apply, or_assoc]

/-- Ports of a row that is added are those it claimed before. -/
theorem pairwise_disjoint_merge {A A' l : List Nat} {rest : List (List Nat)}
    (h : (A :: l :: rest).Pairwise List.Disjoint) (hmem : ∀ n ∈ A', n ∈ A ∨ n ∈ l) :
    (A' :: rest).Pairwise List.Disjoint := by
  obtain ⟨hA, hl, hrest⟩ : (∀ m ∈ l :: rest, List.Disjoint A m) ∧ (∀ m ∈ rest, List.Disjoint l m) ∧
      rest.Pairwise List.Disjoint := by
    rw [pairwise_cons, pairwise_cons] at h
    exact h
  refine pairwise_cons.mpr ⟨?_, hrest⟩
  intro m hm n hn hnm
  rcases hmem n hn with hn | hn
  · exact hA m (mem_cons_of_mem _ hm) hn hnm
  · exact hl m hm hn hnm

/-- A row takes the place of the one it was made from. -/
theorem nodup_map_concat {α : Type} {key : α → JsString} {rows : List α} {x y : α} {xs : List α}
    (h : ((rows ++ x :: xs).map key).Nodup) (hkey : key y = key x) :
      (((rows ++ [y]) ++ xs).map key).Nodup := by
  rw [map_append, map_cons, ← hkey] at h
  rw [append_assoc, map_append, singleton_append, map_cons]
  exact h

variable {cs : List ComposeApp}

variable {ds : List Database}

theorem Free.addApplication {as : List Application} (free : Free R T (a :: as) ds cs)
    (hsettings : y.settings = a.settings)
    (hhosts : y.domains.map Domain.host = a.domains.map Domain.host) :
      Free R (T.addApplication y) as ds cs where
  appNames := nodup_map_concat free.appNames (by rw [hsettings])
  slugs := free.slugs
  stackSlugs := free.stackSlugs
  hosts := by
    have h := free.hosts
    unfold hostsOf at h ⊢
    rw [flatMap_append, flatMap_cons] at h
    rw [Instance.addApplication, append_assoc, flatMap_append, singleton_append,
      flatMap_cons,
      hhosts]
    exact h
  ports := by
    refine pairwise_disjoint_merge free.ports ?_
    intro n hn
    rw [mem_claimed] at hn ⊢
    rw [show appPorts a = appPorts y by rw [appPorts, appPorts, hsettings]]
    simp only [Instance.addApplication, mem_append, mem_singleton] at hn
    rcases hn with ⟨b, hb | rfl, hn⟩ | hn
    · exact Or.inl (Or.inl ⟨b, hb, hn⟩)
    · exact Or.inr hn
    · exact Or.inl (Or.inr hn)

theorem Free.addDatabase {x y : Database} (free : Free R T [] (x :: ds) cs)
    (hsettings : y.settings = x.settings) :
    Free R (T.addDatabase y) [] ds cs where
  appNames := free.appNames
  slugs := nodup_map_concat free.slugs (by rw [hsettings])
  stackSlugs := free.stackSlugs
  hosts := free.hosts
  ports := by
    refine pairwise_disjoint_merge free.ports ?_
    intro n hn
    rw [mem_claimed] at hn ⊢
    rw [show databasePorts x = databasePorts y by rw [databasePorts, databasePorts, hsettings]]
    simp only [Instance.addDatabase, mem_append, mem_singleton] at hn
    rcases hn with hn | ⟨b, hb | rfl, hn⟩ | hn
    · exact Or.inl (Or.inl hn)
    · exact Or.inl (Or.inr (Or.inl ⟨b, hb, hn⟩))
    · exact Or.inr hn
    · exact Or.inl (Or.inr (Or.inr hn))

theorem Free.addComposeApp {c y : ComposeApp} (free : Free R T [] [] (c :: cs))
    (hsettings : y.settings = c.settings) : Free R (T.addComposeApp y) [] [] cs where
  appNames := free.appNames
  slugs := free.slugs
  stackSlugs := nodup_map_concat free.stackSlugs (by rw [hsettings])
  hosts := free.hosts
  ports := by
    refine pairwise_disjoint_merge free.ports ?_
    intro n hn
    rw [mem_claimed] at hn ⊢
    rw [show stackPorts R c = stackPorts R y by rw [stackPorts, stackPorts, hsettings]]
    simp only [Instance.addComposeApp, mem_append, mem_singleton] at hn
    rcases hn with hn | hn | ⟨b, hb | rfl, hn⟩
    · exact Or.inl (Or.inl hn)
    · exact Or.inl (Or.inr (Or.inl hn))
    · exact Or.inl (Or.inr (Or.inr ⟨b, hb, hn⟩))
    · exact Or.inr hn

end Steps

/-! ## The project -/

/-- The instance knows everything the project refers to, by the same names. -/
structure Held (R : Runtime) (T : Instance) (d : Directories) (sets : List VariableSet)
    (p : Project) : Prop where
  distinct : SetsDistinct R T.sets
  applications : ∀ a ∈ p.applications, AppHeld T.platform d sets a
  databases : ∀ x ∈ p.databases, DatabaseHeld T.platform d x
  composeApps : ∀ c ∈ p.composeApps, StackHeld T.platform d sets c

/-- The condition on a project. -/
structure Portable (R : Runtime) (u : Importer) (T : Instance) (d : Directories) (sets : List VariableSet)
    (p : Project) : Prop where
  name : blank p.name = false
  appNames : ∀ a ∈ p.applications, blank a.settings.name = false
  databaseNames : ∀ x ∈ p.databases, blank x.settings.name = false
  stackNames : ∀ c ∈ p.composeApps, blank c.settings.name = false
  applications : ∀ a ∈ p.applications, AppPortable R u T.platform d sets a
  databases : ∀ x ∈ p.databases, DatabasePortable R u d x
  composeApps : ∀ c ∈ p.composeApps, StackPortable R u T.platform d sets c

/-- The resources of the new project are set up as the old ones are. -/
def SameConfiguration (T : Instance) (d : Directories) (sets : List VariableSet) (p : Project)
    (i : Imported) : Prop :=
  i.applications.map (appConfig T.directories i.sets) = p.applications.map (appConfig d sets) ∧
    i.databases.map (databaseConfig T.directories) = p.databases.map (databaseConfig d) ∧
    i.composeApps.map (stackConfig T.directories i.sets) = p.composeApps.map (stackConfig d sets)

/-- Importing the file of a project yields one with the same configuration. -/
def Carried (R : Runtime) (u : Importer) (T : Instance) (d : Directories) (sets : List VariableSet)
    (p : Project)
    (name : Option JsString) : Prop :=
  ∃ i, importProject R u T (exportProject d sets p true) name = .ok i ∧ SameConfiguration T d sets p i

theorem validateShape_export_iff (d : Directories) (sets : List VariableSet) (p : Project) :
    validateShape (exportProject d sets p true) = .ok () ↔ blank p.name = false ∧
      (∀ a ∈ p.applications, blank a.settings.name = false) ∧
        (∀ x ∈ p.databases, blank x.settings.name = false) ∧
      ∀ c ∈ p.composeApps, blank c.settings.name = false := by
  have happs : ((exportProject d sets p true).applications.any fun a => blank a.name) =
      p.applications.any fun a => blank a.settings.name := any_map
  have hdbs : ((exportProject d sets p true).databases.any fun x => blank x.name) =
      p.databases.any fun x => blank x.settings.name := any_map
  have hstacks : ((exportProject d sets p true).composeApps.any fun c => blank c.name) =
      p.composeApps.any fun c => blank c.settings.name := any_map
  have hfalse : ∀ {α : Type} (l : List α) (q : α → Bool), l.any q = false ↔ ∀ x ∈ l, q x = false := by
    intro α l q
    simp
  have hformat : ¬ (exportProject d sets p true).format ≠ exportFormat := not_not_intro rfl
  have hversion : ¬ (exportProject d sets p true).version ≠ exportVersion := not_not_intro rfl
  unfold validateShape
  rw [if_neg hformat, if_neg hversion, happs, hdbs, hstacks, ← hfalse p.applications,
    ← hfalse p.databases, ← hfalse p.composeApps, show (exportProject d sets p true).name = p.name from rfl]
  cases blank p.name with
  | true => simp
  | false =>
    cases p.applications.any fun a => blank a.settings.name with
    | true => simp
    | false =>
      cases p.databases.any fun x => blank x.settings.name with
      | true => simp
      | false =>
        cases p.composeApps.any fun c => blank c.settings.name with
        | true => simp
        | false => simp

section Stages
variable {R : Runtime} {u : Importer} {x : SetIndex} {T : Instance} {d : Directories}
    {sets : List VariableSet}
  {as : List Application} {ds : List Database} {cs : List ComposeApp}

theorem hosts_of_domainConfig {e : Directories}
    (h : y.domains.map (domainConfig e) = a.domains.map (domainConfig d)) :
    y.domains.map Domain.host = a.domains.map Domain.host := by
  have := congrArg (List.map DomainConfig.host) h
  rwa [map_map, map_map] at this

variable (R T d sets) in
/-- Along an import: the instance is the one it was but for its rows, and what is still to come is
known and free. -/
structure ToCome (T' : Instance) (as : List Application) (ds : List Database)
    (cs : List ComposeApp) : Prop where
  platform : T'.platform = T.platform
  applications : ∀ a ∈ as, AppHeld T.platform d sets a
  databases : ∀ x ∈ ds, DatabaseHeld T.platform d x
  composeApps : ∀ c ∈ cs, StackHeld T.platform d sets c
  free : Free R T' as ds cs

variable {T' : Instance}

theorem ToCome.directories (h : ToCome R T d sets T' as ds cs) : T'.directories = T.directories :=
  congrArg Platform.directories h.platform

variable {all : List VariableSet}

theorem ToCome.addApplication (T' : Instance) (a : Application) (as : List Application)
    (y : Application) (h : ToCome R T d sets T' (a :: as) ds cs)
    (hy : appConfig T.directories all y = appConfig d sets a) :
    ToCome R T d sets (T'.addApplication y) as ds cs := by
  obtain ⟨hsettings, -, -, -, -, -, hdomains, -, -⟩ := AppConfig.mk.inj hy
  exact
    { platform := h.platform
      applications := fun b hb => h.applications b (mem_cons_of_mem _ hb)
      databases := h.databases
      composeApps := h.composeApps
      free := h.free.addApplication hsettings (hosts_of_domainConfig hdomains) }

theorem ToCome.addDatabase (T' : Instance) (b : Database) (ds : List Database) (y : Database)
    (h : ToCome R T d sets T' [] (b :: ds) cs)
    (hy : databaseConfig T.directories y = databaseConfig d b) :
    ToCome R T d sets (T'.addDatabase y) [] ds cs where
  platform := h.platform
  applications := h.applications
  databases := fun b hb => h.databases b (mem_cons_of_mem _ hb)
  composeApps := h.composeApps
  free := h.free.addDatabase (DatabaseConfig.mk.inj hy).1

theorem ToCome.addComposeApp (T' : Instance) (c : ComposeApp) (cs : List ComposeApp)
    (y : ComposeApp) (h : ToCome R T d sets T' [] [] (c :: cs))
    (hy : stackConfig T.directories all y = stackConfig d sets c) :
    ToCome R T d sets (T'.addComposeApp y) [] [] cs where
  platform := h.platform
  applications := h.applications
  databases := h.databases
  composeApps := fun b hb => h.composeApps b (mem_cons_of_mem _ hb)
  free := h.free.addComposeApp (StackConfig.mk.inj hy).1

theorem ToCome.application_iff (hsets : SetsDistinct R T.sets) (hx : x.existing = T.sets)
    (hfresh : x.Fresh R)
    (T' : Instance) (a : Application) (as : List Application) (h : ToCome R T d sets T' (a :: as) ds cs) :
    (∃ y, importApplication R u x T' (exportApplication d sets a) = some y ∧
      appConfig T.directories x.all y.value = appConfig d sets a) ↔
        AppPortable R u T.platform d sets a := by
  have ha := h.applications a mem_cons_self
  rw [← h.directories, ← h.platform]
  exact importApplication_iff (h.platform ▸ hsets) (h.platform ▸ hx) hfresh (h.platform ▸ ha) h.free

theorem ToCome.database_iff (T' : Instance) (b : Database) (ds : List Database)
    (h : ToCome R T d sets T' [] (b :: ds) cs) :
    (∃ y, importDatabase R u T' (exportDatabase d true b) = some y ∧
      databaseConfig T.directories y.value = databaseConfig d b) ↔ DatabasePortable R u d b := by
  have hb := h.databases b mem_cons_self
  rw [← h.directories]
  exact importDatabase_iff (h.platform ▸ hb) h.free

theorem ToCome.composeApp_iff (hsets : SetsDistinct R T.sets) (hx : x.existing = T.sets)
    (hfresh : x.Fresh R)
    (T' : Instance) (c : ComposeApp) (cs : List ComposeApp) (h : ToCome R T d sets T' [] [] (c :: cs)) :
    (∃ y, importComposeApp R u x T' (exportComposeApp d sets c) = some y ∧
      stackConfig T.directories x.all y.value = stackConfig d sets c) ↔
        StackPortable R u T.platform d sets c := by
  have hc := h.composeApps c mem_cons_self
  rw [← h.directories, ← h.platform]
  exact importComposeApp_iff (h.platform ▸ hsets) (h.platform ▸ hx) hfresh (h.platform ▸ hc) h.free

theorem ToCome.applications_iff (hsets : SetsDistinct R T.sets) (hx : x.existing = T.sets)
    (hfresh : x.Fresh R) (h : ToCome R T d sets T' as ds cs) :
    (∃ r, importAll (importApplication R u x) Instance.addApplication T' (as.map (exportApplication d sets)) = some r ∧
        r.2.value.map (appConfig T.directories x.all) = as.map (appConfig d sets)) ↔
      ∀ a ∈ as, AppPortable R u T.platform d sets a :=
  importAll_iff (fun T' as => ToCome R T d sets T' as ds cs) (ToCome.application_iff hsets hx hfresh)
    ToCome.addApplication h

theorem ToCome.databases_iff (h : ToCome R T d sets T' [] ds cs) :
    (∃ r, importAll (importDatabase R u) Instance.addDatabase T' (ds.map (exportDatabase d true)) = some r ∧
        r.2.value.map (databaseConfig T.directories) = ds.map (databaseConfig d)) ↔
      ∀ b ∈ ds, DatabasePortable R u d b :=
  importAll_iff (fun T' ds => ToCome R T d sets T' [] ds cs) ToCome.database_iff ToCome.addDatabase h

theorem ToCome.composeApps_iff (hsets : SetsDistinct R T.sets) (hx : x.existing = T.sets)
    (hfresh : x.Fresh R) (h : ToCome R T d sets T' [] [] cs) :
    (∃ r, importAll (importComposeApp R u x) Instance.addComposeApp T' (cs.map (exportComposeApp d sets)) = some r ∧
        r.2.value.map (stackConfig T.directories x.all) = cs.map (stackConfig d sets)) ↔
      ∀ c ∈ cs, StackPortable R u T.platform d sets c :=
  importAll_iff (fun T' cs => ToCome R T d sets T' [] [] cs) (ToCome.composeApp_iff hsets hx hfresh)
    ToCome.addComposeApp h

theorem ToCome.after_applications (h : ToCome R T d sets T' as ds cs)
    {r : Instance × Noted (List Application)}
    (hr : importAll (importApplication R u x) Instance.addApplication T' (as.map (exportApplication d sets)) = some r ∧
      r.2.value.map (appConfig T.directories x.all) = as.map (appConfig d sets)) :
    ToCome R T d sets r.1 [] ds cs :=
  importAll_inv (fun T' as => ToCome R T d sets T' as ds cs) ToCome.addApplication h hr.1 hr.2

theorem ToCome.after_databases (h : ToCome R T d sets T' [] ds cs)
    {r : Instance × Noted (List Database)}
    (hr : importAll (importDatabase R u) Instance.addDatabase T' (ds.map (exportDatabase d true)) = some r ∧
      r.2.value.map (databaseConfig T.directories) = ds.map (databaseConfig d)) :
    ToCome R T d sets r.1 [] [] cs :=
  importAll_inv (fun T' ds => ToCome R T d sets T' [] ds cs) ToCome.addDatabase h hr.1 hr.2

end Stages

/-- The sets a file of the project brings, next to those that are there. -/
def setIndex (R : Runtime) (T : Instance) (d : Directories) (sets : List VariableSet)
    (p : Project) : SetIndex :=
  ⟨(importSets R T.sets ((exportProject d sets p true).variableSets.getD [])).value, T.sets⟩

/-- The three stages of an import, each into the instance the one before left. -/
theorem importResources_iff (R : Runtime) (u : Importer) (T : Instance) (d : Directories)
    (sets : List VariableSet)
    (p : Project) (name : Option JsString) :
    (∃ i, importResources R u T (exportProject d sets p true) name = some i ∧ SameConfiguration T d sets p i) ↔
      ∃ applications databases composeApps,
        (importAll (importApplication R u (setIndex R T d sets p)) Instance.addApplication T
            (p.applications.map (exportApplication d sets)) = some applications ∧
          applications.2.value.map (appConfig T.directories (setIndex R T d sets p).all) =
            p.applications.map (appConfig d sets)) ∧
        (importAll (importDatabase R u) Instance.addDatabase applications.1
            (p.databases.map (exportDatabase d true)) = some databases ∧
          databases.2.value.map (databaseConfig T.directories) = p.databases.map (databaseConfig d)) ∧
        (importAll (importComposeApp R u (setIndex R T d sets p)) Instance.addComposeApp databases.1
            (p.composeApps.map (exportComposeApp d sets)) = some composeApps ∧
          composeApps.2.value.map (stackConfig T.directories (setIndex R T d sets p).all) =
            p.composeApps.map (stackConfig d sets)) := by
  constructor
  · rintro ⟨i, hi, hsame⟩
    simp only [importResources, Option.bind_eq_bind, Option.bind_eq_some_iff] at hi
    obtain ⟨applications, happs, databases, hdbs, composeApps, hstacks, hi⟩ := hi
    obtain rfl := Option.some.inj hi
    exact ⟨applications, databases, composeApps, ⟨happs, hsame.1⟩, ⟨hdbs, hsame.2.1⟩, hstacks, hsame.2.2⟩
  · rintro ⟨applications, databases, composeApps, ⟨happs, h₁⟩, ⟨hdbs, h₂⟩, hstacks, h₃⟩
    have hi : ∃ i, importResources R u T (exportProject d sets p true) name = some i ∧
        i.sets = (setIndex R T d sets p).all ∧ i.applications = applications.2.value ∧
        i.databases = databases.2.value ∧ i.composeApps = composeApps.2.value := by
      simp only [importResources, Option.bind_eq_bind, Option.bind_eq_some_iff]
      exact ⟨_, ⟨applications, happs, databases, hdbs, composeApps, hstacks, rfl⟩, rfl, rfl, rfl, rfl⟩
    obtain ⟨i, hi, hsets, ha, hd, hc⟩ := hi
    exact ⟨i, hi, by rwa [hsets, ha], by rwa [hd], by rwa [hsets, hc]⟩

theorem importProject_eq_ok_iff {R : Runtime} {u : Importer} {file : ProjectExport}
    {name : Option JsString} {i : Imported} :
    importProject R u T file name = .ok i ↔
      validateShape file = .ok () ∧ importResources R u T file name = some i := by
  unfold importProject
  cases validateShape file with
  | error e => simp
  | ok v =>
    cases importResources R u T file name with
    | none => simp
    | some i => simp

section Project
variable {R : Runtime} {u : Importer} {T : Instance} {d : Directories} {sets : List VariableSet}
    {p : Project}
  {name : Option JsString}

theorem setIndex_fresh : (setIndex R T d sets p).Fresh R := importSets_fresh R T.sets _

theorem toCome_all (held : Held R T d sets p) (free : Free R T p.applications p.databases p.composeApps) :
    ToCome R T d sets T p.applications p.databases p.composeApps :=
  ⟨rfl, held.applications, held.databases, held.composeApps, free⟩

theorem portable_of_carried (held : Held R T d sets p)
    (free : Free R T p.applications p.databases p.composeApps)
    (h : Carried R u T d sets p name) : Portable R u T d sets p := by
  obtain ⟨i, hi, hsame⟩ := h
  obtain ⟨hshape, hresources⟩ := importProject_eq_ok_iff.mp hi
  obtain ⟨hname, hnames, hdbNames, hstackNames⟩ := (validateShape_export_iff d sets p).mp hshape
  obtain ⟨as, ds, cs, h₁, h₂, h₃⟩ := (importResources_iff R u T d sets p name).mp ⟨i, hresources, hsame⟩
  have hT := toCome_all held free
  have hT₁ := hT.after_applications h₁
  have hT₂ := hT₁.after_databases h₂
  exact
    { name := hname
      appNames := hnames
      databaseNames := hdbNames
      stackNames := hstackNames
      applications := (hT.applications_iff held.distinct rfl setIndex_fresh).mp ⟨as, h₁⟩
      databases := hT₁.databases_iff.mp ⟨ds, h₂⟩
      composeApps := (hT₂.composeApps_iff held.distinct rfl setIndex_fresh).mp ⟨cs, h₃⟩ }

/-- What is portable gets through every stage. -/
theorem carried_of_portable (held : Held R T d sets p)
    (free : Free R T p.applications p.databases p.composeApps)
    (h : Portable R u T d sets p) : Carried R u T d sets p name := by
  have hT := toCome_all held free
  obtain ⟨as, h₁⟩ := (hT.applications_iff held.distinct rfl setIndex_fresh).mpr h.applications
  have hT₁ := hT.after_applications h₁
  obtain ⟨ds, h₂⟩ := hT₁.databases_iff.mpr h.databases
  have hT₂ := hT₁.after_databases h₂
  obtain ⟨cs, h₃⟩ := (hT₂.composeApps_iff held.distinct rfl setIndex_fresh).mpr h.composeApps
  obtain ⟨i, hi, hsame⟩ := (importResources_iff R u T d sets p name).mpr ⟨as, ds, cs, h₁, h₂, h₃⟩
  have hshape := (validateShape_export_iff d sets p).mpr ⟨h.name, h.appNames, h.databaseNames, h.stackNames⟩
  exact ⟨i, importProject_eq_ok_iff.mpr ⟨hshape, hi⟩, hsame⟩

end Project

/-- **A project whose references are known and whose names, hosts and ports are free keeps its
configuration through a file exactly when it is portable.** -/
theorem carried_iff (R : Runtime) (u : Importer) (T : Instance) (d : Directories)
    (sets : List VariableSet)
    (p : Project) (name : Option JsString) (held : Held R T d sets p)
    (free : Free R T p.applications p.databases p.composeApps) :
    Carried R u T d sets p name ↔ Portable R u T d sets p :=
  ⟨portable_of_carried held free, carried_of_portable held free⟩

/-! ## A sample -/

/-- One cron expression, decimal ports and ASCII names are all the sample needs. -/
def sampleRuntime : Runtime where
  isValidCron c := c = js "0 3 * * *"
  integerInput := HostPorts.decimal
  lower := toLowerCase
  slugify _ := ⟨js "shop-x1y2z3", by decide⟩
  slugify_length _ := by decide
  password _ := js "aaaaaaaaaaaaaaaaaaaaaaaa"
  password_length _ := by decide
  createSet _ := none

def noRows : Directory := ⟨[], List.nodup_nil⟩

/-- One server and one git credential, under the ids of an instance. -/
def sampleDirectories (server credential : JsString) : Directories where
  registries := noRows
  credentials := ⟨[⟨credential, js "github"⟩], by simp⟩
  destinations := noRows
  servers := ⟨[⟨server, js "eu"⟩], by simp⟩
  secretConnections := noRows
  dnsConnections := noRows

def sampleSets (environment : JsString) : List VariableSet :=
    [⟨js "Shop", true, [⟨environment, js "prod"⟩]⟩]

def sampleJob : Job := ⟨js "nightly", some (js "0 3 * * *"), js "npm run report", .container, true, 300, none⟩

/-- An application with all its rows; `wildcard` asks for a wildcard certificate. -/
def sampleApplication (wildcard : Bool) : Application where
  settings :=
    { name := js "web", appName := ⟨js "web", by decide⟩, sourceType := .git, gitUrl := some (js "git@host:shop.git")
      gitBranch := js "main", imageRef := none, autoUpdate := false, autoUpdateIntervalMinutes := 60
      autoUpdateFollowTags := false, dockerfilePath := js "Dockerfile", rootDirectory := some (js "apps/web")
      watchRootOnly := true, buildType := .dockerfile, staticBuildCommand := none, staticOutputDir := js "dist"
      staticSpa := true, containerPort := 3000, hostPort := some 8080, hostPortBind := .loopback
      env := js "A=1", buildArgs := [], healthcheckPath := none, ignoreErrorLogs := false, deploymentKeep := 10
      backupCron := some (js "0 3 * * *"), backupKeep := 7, cpuMillicores := some 500, memoryMb := some 256
      previewsEnabled := true, previewDomain := some (js "pr.example.com"), previewWildcardCert := wildcard }
  secrets := noSecretSource
  gitCredentialId := some (js "c1")
  imageRegistryId := none
  backupDestinationId := none
  serverId := some (js "s1")
  links := [js "e1"]
  monitor := some ⟨true, js "/health", 5, 10, js "200-399", 2, false⟩
  rules := ⟨some ⟨true, 80, 5⟩, none⟩
  domains := [⟨js "shop.example.com", true, .http, none, false⟩]
  mounts := [⟨.volume, none, some (js "data"), none, none, js "/data", false⟩]
  jobs := [sampleJob]

def sampleDatabase : Database where
  settings :=
    { name := js "main", slug := ⟨js "main", by decide⟩, engine := .postgres, variant := some .pgvector
      imageTag := js "pg16", databaseName := js "shop", username := js "app", password := js "secret"
      hostPort := some 5432, hostPortBind := .anywhere, cpuMillicores := none, memoryMb := some 512
      backupCron := none, backupKeep := 7, backupAllDatabases := true }
  backupDestinationId := none
  rules := ⟨none, none⟩
  mounts := []
  jobs := []

def sampleStack : ComposeApp where
  settings :=
    { name := js "mail", slug := ⟨js "mail", by decide⟩, source := .git, templateId := none, composeContent := none
      gitUrl := some (js "git@host:mail.git"), gitBranch := js "main", composePath := js "docker-compose.yml"
      env := [], serviceDomains := [⟨js "ui", 80, js "mail.example.com", true⟩]
      servicePorts := [⟨js "smtp", 25, .number 2525, none⟩] }
  gitCredentialId := some (js "c1")
  links := []
  jobs := [{ sampleJob with service := some (js "smtp") }]
  mounts := []
  serviceResources := []

def sampleProject (wildcard : Bool) : Project :=
  ⟨js "shop", none, [sampleApplication wildcard], [sampleDatabase], [sampleStack], []⟩

/-- Another instance with the same objects under other ids. -/
def sampleTarget : Instance :=
  ⟨sampleDirectories (js "s9") (js "c9"), fun _ => false, sampleSets (js "e9"), [], [], []⟩

theorem sample_held (wildcard : Bool) :
    Held sampleRuntime sampleTarget (sampleDirectories (js "s1") (js "c1")) (sampleSets (js "e1"))
      (sampleProject wildcard) where
  distinct := ⟨by decide, by decide⟩
  applications := by
    intro a ha
    obtain rfl := mem_singleton.mp ha
    constructor <;> decide +revert
  databases := by
    intro x hx
    obtain rfl := mem_singleton.mp hx
    exact show Resolves _ _ _ by decide
  composeApps := by
    intro c hc
    obtain rfl := mem_singleton.mp hc
    exact ⟨by decide, by decide⟩

theorem sample_free (wildcard : Bool) :
    Free sampleRuntime sampleTarget (sampleProject wildcard).applications (sampleProject wildcard).databases
      (sampleProject wildcard).composeApps where
  appNames := by decide +revert
  slugs := by decide +revert
  stackSlugs := by decide +revert
  hosts := by decide +revert
  ports := by
    show ([[], [8080], [5432], [2525]] : List (List Nat)).Pairwise List.Disjoint
    simp [disjoint_left]

theorem sample_portable :
    Portable sampleRuntime ⟨js "member", false⟩ sampleTarget (sampleDirectories (js "s1") (js "c1"))
      (sampleSets (js "e1")) (sampleProject false) where
  name := by decide
  appNames := by decide
  databaseNames := by decide
  stackNames := by decide
  applications := by
    intro a ha
    obtain rfl := mem_singleton.mp ha
    exact
      { appName := by decide
        rootDirectory := by decide
        hostPort := by decide
        backupCron := by decide
        settings := ⟨by decide, by decide, by decide, by decide, by decide, by decide, by decide, by decide, rfl⟩
        secrets := by decide
        gitCredential := by decide
        imageRegistry := by decide
        backupDestination := by decide
        server := by decide
        links := by decide
        monitor := by decide
        rules := by decide
        domains := by decide
        paths := by decide
        mounts := by decide
        jobs := by decide }
  databases := by
    intro x hx
    obtain rfl := mem_singleton.mp hx
    exact ⟨by decide, by decide, by decide, ⟨by decide, by decide, by decide, by decide, by decide⟩, by decide,
      by decide, by decide, by decide, by decide⟩
  composeApps := by
    intro c hc
    obtain rfl := mem_singleton.mp hc
    exact ⟨by decide, by decide, ⟨by decide, by decide, by decide⟩, by decide, by decide, by decide⟩

/-- A member moves the project to the other instance. -/
theorem carried_sample :
    Carried sampleRuntime ⟨js "member", false⟩ sampleTarget (sampleDirectories (js "s1") (js "c1"))
      (sampleSets (js "e1")) (sampleProject false) none :=
  (carried_iff sampleRuntime ⟨js "member", false⟩ sampleTarget (sampleDirectories (js "s1") (js "c1"))
    (sampleSets (js "e1")) (sampleProject false) none (sample_held false) (sample_free false)).mpr sample_portable

/-- The same application with a wildcard preview certificate: whoever imports it, the new one has
none until it is enabled again by hand. -/
theorem wildcard_not_carried :
    ¬ ∀ (R : Runtime) (u : Importer) (T : Instance) (d : Directories) (sets : List VariableSet)
    (p : Project)
      (name : Option JsString), Held R T d sets p → Free R T p.applications p.databases p.composeApps →
        Carried R u T d sets p name := by
  intro h
  have hcarried := h sampleRuntime ⟨js "owner", true⟩ sampleTarget (sampleDirectories (js "s1") (js "c1"))
    (sampleSets (js "e1")) (sampleProject true) none (sample_held true) (sample_free true)
  have hportable := portable_of_carried (sample_held true) (sample_free true) hcarried
  have hwildcard := (hportable.applications (sampleApplication true) List.mem_cons_self).settings.wildcard
  cases hwildcard

end Aoox.Transfer
