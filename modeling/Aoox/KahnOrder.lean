import Mathlib.Order.WellFounded
import Mathlib.Data.Fintype.EquivFin

/-! # Ordering by rounds

Every item of a finite list depends on some others, and an order is wanted in which each
comes after what it depends on.  It is built in rounds: what depends only on items that are
placed is placed next, all of it, in some order of its own.  A round that places nothing
means that what is left depends on itself in a circle (`stuck_of_none`); otherwise the
result has every item once, each after its dependencies (`order_perm`, `order_sorted`).
An order exists exactly when there is no circle (`order_eq_none_iff`).
-/
open List
namespace Kahn
variable {T : Type} [DecidableEq T] (keys : List T) (deps : T → List T) (arrange : List T → List T)

/-- What can be placed next.  A dependency that is no item does not count. -/
def ready (placed : List T) : List T :=
  keys.filter fun t => !placed.contains t && (deps t).all fun p => placed.contains p || !keys.contains p

def rounds : Nat → List T → Option (List T)
  | 0, placed => if placed.length < keys.length then none else some placed
  | n + 1, placed =>
    if placed.length < keys.length then
      match ready keys deps placed with
      | [] => none
      | t :: ts => rounds n (placed ++ arrange (t :: ts))
    else some placed

/-- A round places at least one item, so there are at most as many rounds as items. -/
def order : Option (List T) := rounds keys deps arrange keys.length []

/-- Every item comes after what it depends on. -/
def Sorted (out : List T) : Prop :=
  ∀ pre t post, out = pre ++ t :: post → ∀ p ∈ deps t, p ∈ keys → p ∈ pre

variable {keys deps arrange}

theorem mem_ready {placed : List T} {t : T} : t ∈ ready keys deps placed ↔
    t ∈ keys ∧ t ∉ placed ∧ ∀ p ∈ deps t, p ∈ keys → p ∈ placed := by
  simp only [ready, mem_filter, Bool.and_eq_true, Bool.not_eq_true', all_eq_true,
    Bool.or_eq_true, contains_eq_mem, decide_eq_true_eq, decide_eq_false_iff_not]
  constructor
  · rintro ⟨hkey, hnew, hdeps⟩
    refine ⟨hkey, hnew, ?_⟩
    intro p hp hpkey
    rcases hdeps p hp with hplaced | hno
    · exact hplaced
    · exact absurd hpkey hno
  · rintro ⟨hkey, hnew, hdeps⟩
    refine ⟨hkey, hnew, ?_⟩
    intro p hp
    by_cases hpkey : p ∈ keys
    · exact Or.inl (hdeps p hp hpkey)
    · exact Or.inr hpkey

/-- What every round keeps of the items placed so far. -/
structure Placed (keys : List T) (deps : T → List T) (placed : List T) : Prop where
  nodup : placed.Nodup
  subset : ∀ t ∈ placed, t ∈ keys
  sorted : Sorted keys deps placed

omit [DecidableEq T] in
theorem placed_nil : Placed keys deps [] where
  nodup := nodup_nil
  subset t h := by cases h
  sorted pre t post h := by simp at h

/-- **One round.** -/
theorem Placed.round {placed : List T} (h : Placed keys deps placed) (hkeys : keys.Nodup)
    {ts : List T} (hts : ts.Perm (ready keys deps placed)) : Placed keys deps (placed ++ ts) where
  nodup := by
    refine nodup_append.mpr ⟨h.nodup, hts.nodup_iff.mpr (hkeys.filter _), ?_⟩
    rintro a ha b hb rfl
    exact (mem_ready.mp (hts.mem_iff.mp hb)).2.1 ha
  subset t ht := by
    rcases mem_append.mp ht with hold | hnew
    · exact h.subset t hold
    · exact (mem_ready.mp (hts.mem_iff.mp hnew)).1
  sorted pre t post heq p hp hpkey := by
    rcases append_eq_append_iff.mp heq with ⟨more, hpre, hts'⟩ | ⟨more, hplaced, hrest⟩
    · -- `t` was placed in this round, so what it depends on was placed before
      have ht : t ∈ ts := hts' ▸ mem_append_right more mem_cons_self
      have hdeps := (mem_ready.mp (hts.mem_iff.mp ht)).2.2
      rw [hpre]
      exact mem_append_left _ (hdeps p hp hpkey)
    · cases more with
      | nil =>
        have ht : t ∈ ts := by
          rw [nil_append] at hrest
          exact hrest ▸ mem_cons_self
        have hdeps := (mem_ready.mp (hts.mem_iff.mp ht)).2.2
        rw [append_nil] at hplaced
        exact hplaced ▸ hdeps p hp hpkey
      | cons u more =>
        obtain ⟨rfl, -⟩ := List.cons.inj hrest
        exact h.sorted pre t more hplaced p hp hpkey

theorem rounds_spec (hkeys : keys.Nodup) (harrange : ∀ l, (arrange l).Perm l) :
    ∀ (n : Nat) (placed out : List T), Placed keys deps placed →
      rounds keys deps arrange n placed = some out → Placed keys deps out ∧ keys.length ≤ out.length := by
  intro n
  -- on the rounds left, for whatever has been placed so far
  induction n with
  | zero =>
    intro placed out h hrounds
    simp only [rounds] at hrounds
    split at hrounds
    · cases hrounds
    · cases hrounds
      exact ⟨h, by omega⟩
  | succ n ih =>
    intro placed out h hrounds
    simp only [rounds] at hrounds
    split at hrounds
    · split at hrounds
      · cases hrounds
      · rename_i t ts hready
        refine ih _ out (h.round hkeys ?_) hrounds
        rw [hready]
        exact harrange (t :: ts)
    · cases hrounds
      exact ⟨h, by omega⟩

/-- **Every item is placed once.** -/
theorem order_perm (hkeys : keys.Nodup) (harrange : ∀ l, (arrange l).Perm l) {out : List T}
    (h : order keys deps arrange = some out) : out.Perm keys := by
  obtain ⟨hplaced, hlen⟩ := rounds_spec hkeys harrange keys.length [] out placed_nil h
  exact (subperm_of_subset hplaced.nodup hplaced.subset).perm_of_length_le hlen

/-- **Every item is placed after what it depends on.** -/
theorem order_sorted (hkeys : keys.Nodup) (harrange : ∀ l, (arrange l).Perm l) {out : List T}
    (h : order keys deps arrange = some out) : Sorted keys deps out :=
  (rounds_spec hkeys harrange keys.length [] out placed_nil h).1.sorted

theorem stuck_of_rounds (harrange : ∀ l, (arrange l).Perm l) : ∀ (n : Nat) (placed : List T),
    keys.length ≤ placed.length + n → rounds keys deps arrange n placed = none →
      ∃ placed' : List T, placed'.length < keys.length ∧ ready keys deps placed' = [] := by
  intro n
  -- every round places something, so the rounds left are enough for the items left
  induction n with
  | zero =>
    intro placed hfuel hnone
    simp only [rounds] at hnone
    split at hnone
    · omega
    · cases hnone
  | succ n ih =>
    intro placed hfuel hnone
    simp only [rounds] at hnone
    split at hnone
    · rename_i hless
      split at hnone
      · rename_i hready
        exact ⟨placed, hless, hready⟩
      · rename_i t ts hready
        refine ih _ ?_ hnone
        have hlen := (harrange (t :: ts)).length_eq
        rw [length_append, hlen, length_cons]
        omega
    · cases hnone

/-- **No order means a circle**: some items are left and each depends on one of them. -/
theorem stuck_of_none (harrange : ∀ l, (arrange l).Perm l) (h : order keys deps arrange = none) :
    ∃ placed : List T, placed.length < keys.length ∧
      ∀ t ∈ keys, t ∉ placed → ∃ p ∈ deps t, p ∈ keys ∧ p ∉ placed := by
  obtain ⟨placed, hlen, hready⟩ := stuck_of_rounds harrange keys.length [] (by simp) h
  refine ⟨placed, hlen, ?_⟩
  intro t ht hnew
  by_contra hnone
  have hmem : t ∈ ready keys deps placed := by
    refine mem_ready.mpr ⟨ht, hnew, ?_⟩
    intro p hp hpkey
    by_contra hp'
    exact hnone ⟨p, hp, hpkey, hp'⟩
  rw [hready] at hmem
  cases hmem

/-! ## Circles -/

/-- One item depends on another one. -/
def DependsOn (keys : List T) (deps : T → List T) (t p : T) : Prop :=
  t ∈ keys ∧ p ∈ keys ∧ p ∈ deps t

/-- In a finite set in which each depends on another, some item comes back to itself. -/
theorem circle_of_stuck {left : T → Prop} (hleft : ∀ t, left t → t ∈ keys) (hsome : ∃ t, left t)
    (hstuck : ∀ t, left t → ∃ p ∈ deps t, left p) :
    ∃ t, Relation.TransGen (DependsOn keys deps) t t := by
  by_contra hno
  let after : { t : T // t ∈ keys } → { t : T // t ∈ keys } → Prop :=
    fun p t => Relation.TransGen (DependsOn keys deps) t.1 p.1
  have htrans : IsTrans _ after := ⟨fun _ _ _ hab hbc => hbc.trans hab⟩
  have hirrefl : Std.Irrefl after := ⟨fun t h => hno ⟨t.1, h⟩⟩
  have hwf : WellFounded after := Finite.wellFounded_of_trans_of_irrefl after
  obtain ⟨t₀, ht₀⟩ := hsome
  -- what is left has an item that depends on nothing else that is left
  obtain ⟨t, ht, hmin⟩ := hwf.has_min { t | left t.1 } ⟨⟨t₀, hleft t₀ ht₀⟩, ht₀⟩
  obtain ⟨p, hp, hpleft⟩ := hstuck t.1 ht
  exact hmin ⟨p, hleft p hpleft⟩ hpleft (Relation.TransGen.single ⟨t.2, hleft p hpleft, hp⟩)

omit [DecidableEq T] in
theorem before_of_transGen {out : List T} (hsorted : Sorted keys deps out) {t u : T}
    (h : Relation.TransGen (DependsOn keys deps) t u) :
    ∀ pre post, out = pre ++ t :: post → u ∈ pre := by
  induction h using Relation.TransGen.head_induction_on with
  | single h =>
    intro pre post hout
    exact hsorted pre _ post hout _ h.2.2 h.2.1
  | head h _ ih =>
    intro pre post hout
    obtain ⟨pre', post', rfl⟩ := append_of_mem (hsorted pre _ post hout _ h.2.2 h.2.1)
    rw [append_assoc, cons_append] at hout
    exact mem_append_left _ (ih pre' _ hout)

/-- **There is no order exactly when some item depends on itself through others.** -/
theorem order_eq_none_iff (hkeys : keys.Nodup) (harrange : ∀ l, (arrange l).Perm l) :
    order keys deps arrange = none ↔ ∃ t, Relation.TransGen (DependsOn keys deps) t t := by
  constructor
  · intro hnone
    obtain ⟨placed, hlen, hstuck⟩ := stuck_of_none harrange hnone
    refine @circle_of_stuck T _ keys deps (fun t => t ∈ keys ∧ t ∉ placed) (fun t ht => ht.1) ?_ ?_
    · by_contra hall
      have hsub : keys ⊆ placed := by
        intro t ht
        by_contra hnew
        exact hall ⟨t, ht, hnew⟩
      have hle := (subperm_of_subset hkeys hsub).length_le
      omega
    · intro t ht
      obtain ⟨p, hp, hpkey, hpnew⟩ := hstuck t ht.1 ht.2
      exact ⟨p, hp, hpkey, hpnew⟩
  · rintro ⟨t, hcircle⟩
    cases hout : order keys deps arrange with
    | none => rfl
    | some out =>
      have hperm := order_perm hkeys harrange hout
      have ht : t ∈ keys := by
        rcases Relation.TransGen.head'_iff.mp hcircle with ⟨_, h, _⟩
        exact h.1
      obtain ⟨pre, post, hsplit⟩ := append_of_mem (hperm.mem_iff.mpr ht)
      have hbefore := before_of_transGen (order_sorted hkeys harrange hout) hcircle pre post hsplit
      have hnodup := hperm.nodup_iff.mpr hkeys
      rw [hsplit] at hnodup
      exact absurd rfl ((nodup_append.mp hnodup).2.2 t hbefore t mem_cons_self)

end Kahn
