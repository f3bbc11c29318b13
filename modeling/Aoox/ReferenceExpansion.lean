import Aoox.LayerMerge

/-! # References that are left

A reference is replaced by the raw text another layer holds, and that text is not
looked at again.  So a reference is left behind whenever the inserted text brings
one with it, or when the text around the insertion completes one; a name of the
own env may hold one too.  `noReferenceLeft_iff` says that these are the only
ways.
-/
namespace Aoox
open JsString

namespace ResolveContext

/-- No value of the secret source and no field of a database holds a reference. -/
structure OutsidePlain (ctx : ResolveContext) : Prop where
  source : ∀ secrets ∈ ctx.fetched, ∀ e ∈ secrets.entries, references e.2 = []
  database : ∀ m left right, Reference.Formed m left right → ∀ fields,
    ctx.fieldsFor m = some fields → ∀ field ∈ DATABASE_FIELDS, references (fields.get field) = []

/-- One expanded variable leaves no reference: its name holds none, no linked
value it inserts holds one, and none is put together across a border. -/
structure ExpandsFully (ctx : ResolveContext) (e : JsString × JsString) : Prop where
  name : references e.1 = []
  inserts : ∀ m ∈ references e.2, m.scope = js "vars" → m.field = none →
    ∀ v, Assoc.get ctx.vars m.name = some v → references v = []
  borders : ¬ Splicing.Crosses reference (Splicing.pieces reference ctx.inserted e.2)

variable {ctx : ResolveContext}

/-- What a reference other than `${{vars.KEY}}` inserts holds no reference. -/
theorem OutsidePlain.inserted_eq_nil (h : ctx.OutsidePlain) {m : Reference} {left right : JsString}
    (hm : m.Formed left right) (hvars : ¬ (m.scope = js "vars" ∧ m.field = none)) :
    references (ctx.inserted m) = [] := by
  rw [inserted, replacement, if_neg hvars]
  split
  · rw [secretOf]
    split
    · rfl
    · cases hf : ctx.fetched with
      | none => rfl
      | some secrets =>
        show references ((Assoc.get secrets.entries m.name).getD []) = []
        cases hget : Assoc.get secrets.entries m.name with
        | none => rfl
        | some v => exact h.source secrets hf _ (Assoc.mem_of_get hget)
  · rw [databaseOf]
    split
    · rename_i hdatabase
      cases hf : ctx.fieldsFor m with
      | none => rfl
      | some fields =>
        exact h.database m left right hm fields hf _ (by simpa [isDatabaseField] using hdatabase.2)
    · rfl

/-- **What one expanded entry leaves.** -/
theorem expandsFully_iff (h : ctx.OutsidePlain) {e : JsString × JsString}
    (hliteral : ctx.isLiteral e.1 = false) :
    references (lineOf e.1 (ctx.shown e)) = [] ↔ ctx.ExpandsFully e := by
  have hinserts : (¬ ∃ g ∈ (Splicing.cut reference e.2).1,
      Splicing.Occurs reference (ctx.inserted g.2)) ↔
      ∀ m ∈ references e.2, m.scope = js "vars" → m.field = none →
        ∀ v, Assoc.get ctx.vars m.name = some v → references v = [] := by
    rw [references_eq_cut]
    constructor
    · intro hnone m hm hscope hfield v hv
      obtain ⟨g, hg, rfl⟩ := List.mem_map.mp hm
      have hins : ctx.inserted g.2 = v := by
        rw [inserted, replacement, if_pos ⟨hscope, hfield⟩, hv]
        rfl
      rw [references_eq_nil_iff, ← hins]
      exact fun hocc => hnone ⟨g, hg, hocc⟩
    · rintro hall ⟨g, hg, hocc⟩
      have hmem : g.2 ∈ references e.2 := by
        rw [references_eq_cut]
        exact List.mem_map_of_mem hg
      obtain ⟨left, right, hformed⟩ := formed_of_mem_references hmem
      refine references_eq_nil_iff.mp ?_ hocc
      by_cases hvars : g.2.scope = js "vars" ∧ g.2.field = none
      · rw [inserted, replacement, if_pos hvars]
        cases hv : Assoc.get ctx.vars g.2.name with
        | none => rfl
        | some v => exact hall g.2 (List.mem_map_of_mem hg) hvars.1 hvars.2 v hv
      · exact h.inserted_eq_nil hformed hvars
  have hvalue : references (ctx.shown e) = [] ↔ ¬ Splicing.Occurs reference
      (Splicing.expand reference ctx.inserted e.2) := by
    rw [references_eq_nil_iff, shown, hliteral]
    simp
  rw [references_lineOf_eq_nil_iff, hvalue, Splicing.occurs_expand_iff, not_or, hinserts]
  constructor
  · rintro ⟨hname, hinserts, hborders⟩
    exact ⟨hname, hinserts, hborders⟩
  · intro h
    exact ⟨h.name, h.inserts, h.borders⟩

end ResolveContext

section Resolve
variable {svc : Services} {layers : List Layer} {app : EnvOwner} {opts : ResolveOptions}
  {fetched : Option SecretMap}

/-- **When no reference is left.**  The entries of a successful `resolve` that
are not literal secrets of the source hold no reference exactly when every
merged variable that is expanded is of that kind. -/
theorem noReferenceLeft_iff {r : ResolvedEnv}
    (hfetched : fetchSecrets svc layers app opts = .ok fetched)
    (h : resolve svc layers app opts = .ok r)
    (hplain : (contextOf svc layers app opts fetched).OutsidePlain) :
    (∀ line ∈ r.env, (contextOf svc layers app opts fetched).isLiteral (entryKey line) = false →
      references line = []) ↔
    ∀ e ∈ (contextOf svc layers app opts fetched).merged,
      (contextOf svc layers app opts fetched).isLiteral e.1 = false →
        (contextOf svc layers app opts fetched).ExpandsFully e := by
  obtain ⟨fetched', hfetched', henv, -, -⟩ := resolve_spec h
  obtain rfl : fetched = fetched' := Except.ok.inj (hfetched.symm.trans hfetched')
  have hkey : ∀ e ∈ (contextOf svc layers app opts fetched).merged, cu '=' ∉ e.1 := by
    intro e he
    rw [← sourcesOf_map] at he
    obtain ⟨s, hs, rfl⟩ := List.mem_map.mp he
    exact equals_notMem_key hs
  rw [henv]
  constructor
  · intro hall e he hliteral
    rw [← ResolveContext.expandsFully_iff hplain hliteral]
    refine hall _ (List.mem_map_of_mem he) ?_
    rwa [entryKey_lineOf (hkey e he)]
  · intro hall line hline hliteral
    obtain ⟨e, he, rfl⟩ := List.mem_map.mp hline
    rw [entryKey_lineOf (hkey e he)] at hliteral
    exact (ResolveContext.expandsFully_iff hplain hliteral).mpr (hall e he hliteral)

end Resolve

/-! ## A chain of references -/

/-- The spec's two sets, one value of which refers to the other. -/
def domainLinks : List Layer :=
  [⟨js "DOMAIN=example.com", [], proto_notMem_nil⟩,
    ⟨js "API=https://api.$\x7b\x7bvars.DOMAIN\x7d\x7d", [], proto_notMem_nil⟩]

theorem outsidePlain_noServices (layers : List Layer) (app : EnvOwner) (opts : ResolveOptions) :
    (contextOf noServices layers app opts none).OutsidePlain where
  source _ h := by cases h
  database _ _ _ _ _ h := by cases h

/-- A reference to a value without references is expanded. -/
theorem noReferenceLeft_domainLinks :
    ∃ r, resolve noServices domainLinks (plainOwner []) ⟨true, false⟩ = .ok r ∧
      ((∀ line ∈ r.env, (contextOf noServices domainLinks (plainOwner []) ⟨true, false⟩
          none).isLiteral (entryKey line) = false → references line = []) ↔
        ∀ e ∈ (contextOf noServices domainLinks (plainOwner []) ⟨true, false⟩ none).merged,
          (contextOf noServices domainLinks (plainOwner []) ⟨true, false⟩ none).isLiteral e.1 =
              false →
            (contextOf noServices domainLinks (plainOwner []) ⟨true, false⟩ none).ExpandsFully e) ∧
      r.env = [js "DOMAIN=example.com", js "API=https://api.example.com"] := by
  exact ⟨_, rfl, noReferenceLeft_iff rfl rfl (outsidePlain_noServices _ _ _), rfl⟩

/-- **A chain is expanded once only**: the value of `B` is inserted as it stands,
with its reference to `C`. -/
theorem reference_left :
    ¬ ∀ (svc : Services) (layers : List Layer) (app : EnvOwner) (opts : ResolveOptions)
      (fetched : Option SecretMap) (r : ResolvedEnv), opts.lenient = false →
      fetchSecrets svc layers app opts = .ok fetched → resolve svc layers app opts = .ok r →
      (contextOf svc layers app opts fetched).OutsidePlain →
      ∀ line ∈ r.env, (contextOf svc layers app opts fetched).isLiteral (entryKey line) = false →
        references line = [] := by
  intro hall
  have hleft := hall noServices
    [⟨js "B=$\x7b\x7bvars.C\x7d\x7d", [], by decide⟩, ⟨js "C=x", [], by decide⟩]
    (plainOwner (js "A=$\x7b\x7bvars.B\x7d\x7d")) ⟨true, false⟩ none _ rfl rfl rfl
    (outsidePlain_noServices _ _ _) (js "A=$\x7b\x7bvars.C\x7d\x7d") (by decide) (by decide)
  exact absurd hleft (by decide)

end Aoox
