import Aoox.Assoc
import Mathlib.Data.List.Nodup

/-! # Collecting a list under keys

A list is collected under a key function: one entry per key, in the order in which the
keys first occur, holding the elements of that key in their order.  The loop that builds
the entries one element at a time (`collect`) has a closed form (`collect_eq`), and the
facts about groups are read off it: every element is in the group of its key and in no
other, and every group is the part of the list with its key.
-/
open List
namespace Grouping
variable {α κ : Type} [DecidableEq κ]

/-- Puts one more element into the entry of its key. -/
def push (key : α → κ) (groups : List (κ × List α)) (x : α) : List (κ × List α) :=
  Assoc.set groups (key x) ((Assoc.get groups (key x)).getD [] ++ [x])

/-- The loop. -/
def collect (key : α → κ) (xs : List α) : List (κ × List α) := xs.foldl (push key) []

omit [DecidableEq κ] in
theorem eraseDups_concat [BEq κ] [LawfulBEq κ] (ks : List κ) (k : κ) :
    (ks ++ [k]).eraseDups = if k ∈ ks then ks.eraseDups else ks.eraseDups ++ [k] := by
  rw [eraseDups_append]
  by_cases hk : k ∈ ks
  · simp [List.removeAll, hk]
  · simp [List.removeAll, hk, eraseDups_cons]

/-- The keys of a map are those of its entries, in the order in which they first occur. -/
theorem keys_ofList [BEq κ] [LawfulBEq κ] {β : Type} (entries : List (κ × β)) :
    (Assoc.ofList entries).map Prod.fst = (entries.map Prod.fst).eraseDups := by
  induction entries using reverseRecOn with
  | nil => rfl
  | append_singleton entries e ih =>
    have hset : Assoc.ofList (entries ++ [e]) = Assoc.set (Assoc.ofList entries) e.1 e.2 := by
      rw [Assoc.ofList, foldl_concat]
      rfl
    rw [hset, Assoc.keys_set, ih, map_append, map_singleton, eraseDups_concat]
    simp only [mem_eraseDups]

omit [DecidableEq κ] in
theorem filter_eraseDups [BEq κ] [LawfulBEq κ] (p : κ → Bool) (ks : List κ) :
    (ks.filter p).eraseDups = ks.eraseDups.filter p := by
  induction ks using reverseRecOn with
  | nil => rfl
  | append_singleton ks k ih =>
    rw [filter_append, eraseDups_concat]
    by_cases hk : p k = true
    · have hmem : k ∈ ks.filter p ↔ k ∈ ks := by simp [hk]
      rw [filter_singleton, hk, cond_true, eraseDups_concat, ih]
      by_cases hm : k ∈ ks
      · rw [if_pos (hmem.mpr hm), if_pos hm]
      · rw [if_neg (fun h => hm (hmem.mp h)), if_neg hm, filter_append,
          filter_singleton, hk, cond_true]
    · have hfalse : p k = false := by simpa using hk
      rw [filter_singleton, hfalse, cond_false, append_nil, ih]
      split
      · rfl
      · rw [filter_append, filter_singleton, hfalse, cond_false, append_nil]

omit [DecidableEq κ] in
/-- Removing later repetitions leaves no repetition. -/
theorem nodup_eraseDups [BEq κ] [LawfulBEq κ] (ks : List κ) : ks.eraseDups.Nodup := by
  induction ks using reverseRecOn with
  | nil => simp
  | append_singleton ks k ih =>
    rw [eraseDups_concat]
    split
    · exact ih
    · rename_i hk
      refine nodup_append.mpr ⟨ih, by simp, ?_⟩
      rintro a ha b hb rfl
      rw [mem_singleton] at hb
      rw [mem_eraseDups] at ha
      exact hk (hb ▸ ha)

omit [DecidableEq κ] in
theorem eraseDups_eq_self [BEq κ] [LawfulBEq κ] {ks : List κ} (h : ks.Nodup) : ks.eraseDups = ks := by
  induction ks with
  | nil => rfl
  | cons k ks ih =>
    obtain ⟨hk, hks⟩ := nodup_cons.mp h
    have hfilter : (ks.filter fun b => !b == k) = ks := by
      rw [filter_eq_self]
      rintro b hb
      have hne : b ≠ k := fun h => hk (h ▸ hb)
      simpa using hne
    rw [eraseDups_cons, hfilter, ih hks]

omit [DecidableEq κ] in
theorem eraseDups_sublist [BEq κ] [LawfulBEq κ] (ks : List κ) : ks.eraseDups.Sublist ks := by
  induction ks using reverseRecOn with
  | nil => simp
  | append_singleton ks k ih =>
    rw [eraseDups_concat]
    split
    · exact ih.trans (sublist_append_left ks [k])
    · exact ih.append (Sublist.refl [k])

theorem map_some_filterMap {α β : Type} {f : α → Option β} {xs : List α}
    (h : ∀ x ∈ xs, (f x).isSome = true) :
    (xs.filterMap f).map some = xs.map f := by
  rw [map_filterMap_some_eq_filter_map_isSome, filter_eq_self]
  intro y hy
  obtain ⟨x, hx, rfl⟩ := mem_map.mp hy
  exact h x hx

/-- Elements are sent over by `f`, repetitions dropped, the first `n` kept and sent back by
`g`: the list is the same exactly when nothing was dropped on the way. -/
theorem roundTrip_iff {α β : Type} [BEq β] [LawfulBEq β] {f : α → Option β} {g : β → Option α}
    {n : Nat} {xs : List α}
    (hback : ∀ x ∈ xs, ∀ y ∈ f x, g y = some x) :
    ((xs.filterMap f).eraseDups.take n).filterMap g = xs ↔
      xs.Nodup ∧ xs.length ≤ n ∧ ∀ x ∈ xs, (f x).isSome = true := by
  have hsent := length_filterMap_le f xs
  constructor
  · intro h
    have hreturned := length_filterMap_le g ((xs.filterMap f).eraseDups.take n)
    have hunique := (eraseDups_sublist (xs.filterMap f)).length_le
    rw [h, length_take] at hreturned
    have hall : ∀ x ∈ xs, (f x).isSome = true := filterMap_length_eq_length.mp (by omega)
    have hself : (xs.filterMap f).eraseDups = xs.filterMap f :=
      (eraseDups_sublist (xs.filterMap f)).eq_of_length (by omega)
    have hnodup : ((xs.filterMap f).map some).Nodup := by
      rw [← hself]
      exact (nodup_eraseDups _).map fun _ _ => Option.some.inj
    rw [map_some_filterMap hall] at hnodup
    exact ⟨hnodup.of_map f, by omega, hall⟩
  · rintro ⟨hxs, hn, hall⟩
    have hnodup : (xs.map f).Nodup := by
      refine Nodup.map_on ?_ hxs
      intro x hx y hy hxy
      obtain ⟨b, hb⟩ := Option.isSome_iff_exists.mp (hall x hx)
      have hx := hback x hx b hb
      have hy := hback y hy b (hxy ▸ hb)
      exact Option.some.inj (hx.symm.trans hy)
    rw [← map_some_filterMap hall] at hnodup
    rw [eraseDups_eq_self (hnodup.of_map some), take_of_length_le (by omega),
      filterMap_filterMap]
    refine (filterMap_congr ?_).trans filterMap_some
    intro x hx
    obtain ⟨b, hb⟩ := Option.isSome_iff_exists.mp (hall x hx)
    rw [hb, Option.bind_some, hback x hx b hb]

theorem get_map_keys {β : Type} (f : κ → β) (ks : List κ) (k : κ) :
    Assoc.get (ks.map fun k => (k, f k)) k = if k ∈ ks then some (f k) else none := by
  induction ks with
  | nil => rfl
  | cons a ks ih =>
    by_cases ha : a = k
    · simp [Assoc.get, ha]
    · simp [Assoc.get, ha, Ne.symm ha, ih]

theorem set_map_keys {β : Type} (f : κ → β) {ks : List κ} (hks : ks.Nodup) (k : κ) (v : β) :
    Assoc.set (ks.map fun k => (k, f k)) k v =
      (if k ∈ ks then ks else ks ++ [k]).map fun k' => (k', if k' = k then v else f k') := by
  induction ks with
  | nil => simp [Assoc.set]
  | cons a ks ih =>
    rw [nodup_cons] at hks
    by_cases ha : a = k
    · subst ha
      have hrest : ∀ k' ∈ ks, (k', f k') = (k', if k' = a then v else f k') := by
        intro k' hk'
        have : k' ≠ a := fun h => hks.1 (h ▸ hk')
        simp [this]
      simp only [map_cons, Assoc.set, if_true, mem_cons, true_or]
      rw [map_congr_left hrest]
    · simp only [map_cons, Assoc.set, ha, if_false, ih hks.2, mem_cons, Ne.symm ha, false_or]
      by_cases hk : k ∈ ks <;> simp [hk, ha]

/-- **The groups**: the keys in the order of their first occurrence, each with the part
of the list that has it. -/
theorem collect_eq [BEq κ] [LawfulBEq κ] (key : α → κ) (xs : List α) :
    collect key xs = (xs.map key).eraseDups.map fun k => (k, xs.filter fun x => key x = k) := by
  induction xs using reverseRecOn with
  | nil => rfl
  | append_singleton xs x ih =>
    have hpush : collect key (xs ++ [x]) = push key (collect key xs) x := by simp [collect]
    rw [hpush, push, ih, get_map_keys, set_map_keys _ (nodup_eraseDups _), map_append,
      map_singleton, eraseDups_concat]
    simp only [mem_eraseDups]
    refine map_congr_left fun k _ => ?_
    by_cases hk : k = key x
    · subst hk
      by_cases hmem : key x ∈ xs.map key
      · simp [hmem, filter_append]
      · have hnone : xs.filter (fun y => key y = key x) = [] := by
          rw [filter_eq_nil_iff]
          intro y hy hyx
          exact hmem (mem_map.mpr ⟨y, hy, by simpa using hyx⟩)
        simp [hmem, filter_append, hnone]
    · simp [hk, Ne.symm hk, filter_append]

variable {key : α → κ} {xs : List α}

theorem mem_collect {k : κ} {group : List α} :
    (k, group) ∈ collect key xs ↔ k ∈ xs.map key ∧ group = xs.filter fun x => key x = k := by
  rw [collect_eq, mem_map]
  constructor
  · rintro ⟨k', hk', heq⟩
    obtain ⟨rfl, rfl⟩ := Prod.mk.inj heq
    exact ⟨mem_eraseDups.mp hk', rfl⟩
  · rintro ⟨hk, rfl⟩
    exact ⟨k, mem_eraseDups.mpr hk, rfl⟩

/-- The keys of the groups do not repeat. -/
theorem collect_keys_nodup (key : α → κ) (xs : List α) : ((collect key xs).map Prod.fst).Nodup := by
  rw [collect_eq, map_map]
  simpa [Function.comp_def] using nodup_eraseDups (xs.map key)

/-- Groups are not empty. -/
theorem collect_ne_nil {e : κ × List α} (he : e ∈ collect key xs) : e.2 ≠ [] := by
  obtain ⟨k, group⟩ := e
  obtain ⟨hk, rfl⟩ := mem_collect.mp he
  obtain ⟨x, hx, rfl⟩ := mem_map.mp hk
  have hin : x ∈ xs.filter fun y => key y = key x := by simp [hx]
  exact ne_nil_of_mem hin

theorem collect_eq_nil : collect key xs = [] ↔ xs = [] := by
  refine ⟨fun h => ?_, fun h => h ▸ rfl⟩
  cases xs with
  | nil => rfl
  | cons x xs =>
    have hmem : (key x, (x :: xs).filter fun y => key y = key x) ∈ collect key (x :: xs) :=
      mem_collect.mpr ⟨by simp, rfl⟩
    rw [h] at hmem
    cases hmem

/-! ## Other keys, fewer elements -/

omit [DecidableEq κ] in
theorem eraseDups_map {κ' : Type} [BEq κ] [LawfulBEq κ] [BEq κ'] [LawfulBEq κ'] {f : κ → κ'}
    {ks : List κ} (hf : ∀ k ∈ ks, ∀ k' ∈ ks, f k = f k' → k = k') :
    (ks.map f).eraseDups = ks.eraseDups.map f := by
  induction ks using reverseRecOn with
  | nil => rfl
  | append_singleton ks k ih =>
    have hmem : f k ∈ ks.map f ↔ k ∈ ks := by
      refine ⟨fun h => ?_, mem_map_of_mem⟩
      obtain ⟨k', hk', heq⟩ := mem_map.mp h
      have := hf k' (mem_append_left _ hk') k (by simp) heq
      rwa [← this]
    have ih := ih fun a ha b hb =>
      hf a (mem_append_left _ ha) b (mem_append_left _ hb)
    rw [map_append, map_singleton, eraseDups_concat, eraseDups_concat, ih]
    by_cases hk : k ∈ ks
    · rw [if_pos hk, if_pos (hmem.mpr hk)]
    · rw [if_neg hk, if_neg fun h => hk (hmem.mp h), map_append, map_singleton]

omit [DecidableEq κ] in
theorem eraseDups_filter [BEq κ] [LawfulBEq κ] (q : κ → Bool) (ks : List κ) :
    ks.eraseDups.filter q = (ks.filter q).eraseDups := by
  induction ks using reverseRecOn with
  | nil => rfl
  | append_singleton ks k ih =>
    rw [eraseDups_concat, filter_append]
    by_cases hq : q k = true
    · rw [filter_singleton, hq, cond_true, eraseDups_concat, ← ih]
      by_cases hk : k ∈ ks
      · rw [if_pos hk, if_pos (mem_filter.mpr ⟨hk, hq⟩)]
      · rw [if_neg hk, if_neg fun h => hk (mem_filter.mp h).1, filter_append,
          filter_singleton, hq, cond_true]
    · have hq : q k = false := by simpa using hq
      rw [filter_singleton, hq, cond_false, append_nil]
      split
      · exact ih
      · rw [filter_append, filter_singleton, hq, cond_false, append_nil, ih]

/-- Keys that tell the same elements apart make the same groups. -/
theorem collect_comp {κ' : Type} [DecidableEq κ'] {f : κ → κ'}
    (hf : ∀ x ∈ xs, ∀ y ∈ xs, f (key x) = f (key y) → key x = key y) :
    collect (fun x => f (key x)) xs = (collect key xs).map fun e => (f e.1, e.2) := by
  have hf' : ∀ k ∈ xs.map key, ∀ k' ∈ xs.map key, f k = f k' → k = k' := by
    intro k hk k' hk'
    obtain ⟨x, hx, rfl⟩ := mem_map.mp hk
    obtain ⟨y, hy, rfl⟩ := mem_map.mp hk'
    exact hf x hx y hy
  have hkeys : xs.map (fun x => f (key x)) = (xs.map key).map f := by simp
  rw [collect_eq, collect_eq, hkeys, eraseDups_map hf', map_map, map_map]
  refine map_congr_left fun k hk => ?_
  refine Prod.ext rfl (filter_congr fun x hx => ?_)
  have := hf' (key x) (mem_map_of_mem hx) k (mem_eraseDups.mp hk)
  rw [decide_eq_decide]
  exact ⟨this, fun h => by rw [h]⟩

/-- The groups of some keys are the groups of the elements with these keys. -/
theorem collect_filter (key : α → κ) (q : κ → Bool) (xs : List α) :
    (collect key xs).filter (fun e => q e.1) = collect key (xs.filter fun x => q (key x)) := by
  have hkeys : (xs.filter fun x => q (key x)).map key = (xs.map key).filter q := by
    rw [filter_map]
    rfl
  rw [collect_eq, collect_eq, hkeys, ← eraseDups_filter, filter_map]
  refine map_congr_left fun k hk => ?_
  have hq : q k = true := (mem_filter.mp hk).2
  rw [filter_filter]
  refine Prod.ext rfl (filter_congr fun x _ => ?_)
  by_cases hx : key x = k
  · simp [hx, hq]
  · simp [hx]

/-! ## Lists matched entry by entry -/

section Matched
variable {β γ : Type} {R : α → β → Prop} {as : List α} {bs : List β}

theorem exists_of_mem_right (h : Forall₂ R as bs) {b : β} (hb : b ∈ bs) : ∃ a ∈ as, R a b := by
  induction h with
  | nil => cases hb
  | @cons a b' as bs hab _ ih =>
    rcases mem_cons.mp hb with rfl | hb
    · exact ⟨a, mem_cons_self, hab⟩
    · obtain ⟨a', ha', hr⟩ := ih hb
      exact ⟨a', mem_cons_of_mem _ ha', hr⟩

theorem exists_of_mem_left (h : Forall₂ R as bs) {a : α} (ha : a ∈ as) : ∃ b ∈ bs, R a b := by
  obtain ⟨b, hb, hr⟩ := exists_of_mem_right h.flip ha
  exact ⟨b, hb, hr⟩

/-- The match of an entry stands where the entry stands. -/
theorem exists_split_right {pre post : List α} {a : α} (h : Forall₂ R (pre ++ a :: post) bs) :
    ∃ pre' b post', bs = pre' ++ b :: post' ∧ R a b ∧ Forall₂ R post post' := by
  induction pre generalizing bs with
  | nil =>
    cases h with
    | cons hab hrest => exact ⟨[], _, _, rfl, hab, hrest⟩
  | cons x pre ih =>
    cases h with
    | @cons _ y _ ys hxy hrest =>
      obtain ⟨pre', b, post', rfl, hab, hpost⟩ := ih hrest
      exact ⟨y :: pre', b, post', rfl, hab, hpost⟩

/-- What tells the entries of one list apart tells those of the other apart. -/
theorem nodup_map_of_forall₂ {f : β → γ} (h : Forall₂ R as bs) (has : as.Nodup)
    (hinj : ∀ a ∈ as, ∀ a' ∈ as, ∀ b b', R a b → R a' b' → f b = f b' → a = a') :
    (bs.map f).Nodup := by
  induction h with
  | nil => simp
  | @cons a b as bs hab hrest ih =>
    rw [nodup_cons] at has
    rw [map_cons, nodup_cons]
    constructor
    · intro hmem
      obtain ⟨b', hb', heq⟩ := mem_map.mp hmem
      obtain ⟨a', ha', hab'⟩ := exists_of_mem_right hrest hb'
      have := hinj a' (mem_cons_of_mem _ ha') a mem_cons_self b' b hab' hab heq
      exact has.1 (this ▸ ha')
    · refine ih has.2 fun x hx x' hx' => ?_
      exact hinj x (mem_cons_of_mem _ hx) x' (mem_cons_of_mem _ hx')

end Matched

/-! ## The last entry of a kind -/

theorem exists_last {p : α → Prop} (h : ∃ x ∈ xs, p x) :
    ∃ pre y post, xs = pre ++ y :: post ∧ p y ∧ ∀ z ∈ post, ¬ p z := by
  induction xs with
  | nil =>
    obtain ⟨x, hx, -⟩ := h
    cases hx
  | cons a xs ih =>
    by_cases hlater : ∃ z ∈ xs, p z
    · obtain ⟨pre, y, post, rfl, hy, hpost⟩ := ih hlater
      exact ⟨a :: pre, y, post, rfl, hy, hpost⟩
    · obtain ⟨x, hx, hp⟩ := h
      rcases mem_cons.mp hx with rfl | hx
      · exact ⟨[], x, xs, rfl, hp, fun z hz hpz => hlater ⟨z, hz, hpz⟩⟩
      · exact absurd ⟨x, hx, hp⟩ hlater

theorem last_of_sublist {pre post part : List α} {x : α} {p : α → Prop}
    (hxs : xs = pre ++ x :: post) (hnd : xs.Nodup) (hlast : ∀ z ∈ post, ¬ p z)
    (hpart : part.Sublist xs) (hx : x ∈ part) :
    ∃ pre' post', part = pre' ++ x :: post' ∧ ∀ z ∈ post', ¬ p z := by
  subst hxs
  obtain ⟨front, back, rfl, hfront, hback⟩ := sublist_append_iff.mp hpart
  obtain ⟨-, hnd', hdisj⟩ := nodup_append.mp hnd
  have hback' : x ∈ back := by
    rcases mem_append.mp hx with h | h
    · exact absurd rfl (hdisj x (hfront.subset h) x mem_cons_self)
    · exact h
  rcases sublist_cons_iff.mp hback with h | ⟨back', rfl, h⟩
  · exact absurd (h.subset hback') (nodup_cons.mp hnd').1
  · exact ⟨front, back', rfl, fun z hz => hlast z (h.subset hz)⟩

end Grouping
