import Mathlib.Data.List.Forall2
import Mathlib.Data.List.Induction

/-! # Ordered maps as association lists

A map that remembers insertion order: writing a key that is present keeps its
place, writing a new one appends it.  Reading finds the first entry, which is
the only one in a list built by `set`.
-/
open List Option
namespace Assoc
variable {κ β : Type} [DecidableEq κ]

/-- The value under a key. -/
def get (m : List (κ × β)) (k : κ) : Option β :=
  match m with
  | [] => none
  | (k', v) :: rest => if k' = k then some v else get rest k

/-- Writes a key, in place or at the end. -/
def set (m : List (κ × β)) (k : κ) (v : β) : List (κ × β) :=
  match m with
  | [] => [(k, v)]
  | (k', v') :: rest => if k' = k then (k, v) :: rest else (k', v') :: set rest k v

/-- Removes a key. -/
def erase (m : List (κ × β)) (k : κ) : List (κ × β) := m.filter fun e => e.1 ≠ k

/-- A map from a list of entries; the last value of a key wins. -/
def ofList (entries : List (κ × β)) : List (κ × β) :=
  entries.foldl (fun m e => set m e.1 e.2) []

attribute [local simp] get set erase

@[simp] theorem get_nil (k : κ) : get ([] : List (κ × β)) k = none := rfl

theorem get_set (m : List (κ × β)) (k : κ) (v : β) (k' : κ) :
    get (set m k v) k' = if k = k' then some v else get m k' := by
  induction m with
  | nil => simp [set, get]
  | cons e m ih =>
    obtain ⟨a, b⟩ := e
    by_cases ha : a = k
    · subst ha
      by_cases hk : a = k' <;> simp [set, get, hk]
    · by_cases hk : a = k'
      · subst hk
        simp [set, get, ha, Ne.symm ha]
      · simp [set, get, ha, hk, ih]

theorem get_erase (m : List (κ × β)) (k k' : κ) :
    get (erase m k) k' = if k = k' then none else get m k' := by
  induction m with
  | nil => simp [erase]
  | cons e m ih =>
    obtain ⟨a, b⟩ := e
    rw [erase] at ih
    by_cases ha : a = k
    · subst ha
      by_cases hk : a = k'
      · simpa [erase, hk, get] using ih
      · simpa [erase, hk, get] using ih
    · by_cases hk : a = k'
      · subst hk
        simp [erase, ha, get, Ne.symm ha]
      · simpa [erase, ha, hk, get] using ih

theorem get_append (m n : List (κ × β)) (k : κ) : get (m ++ n) k = (get m k).or (get n k) := by
  induction m with
  | nil => simp
  | cons e m ih =>
    obtain ⟨a, b⟩ := e
    by_cases ha : a = k <;> simp [get, ha, ih]

variable {m : List (κ × β)} {k : κ}

theorem get_eq_none_iff : get m k = none ↔ k ∉ m.map Prod.fst := by
  induction m with
  | nil => simp
  | cons e m ih =>
    obtain ⟨a, b⟩ := e
    by_cases ha : a = k
    · simp [get, ha]
    · simp [get, ha, ih, Ne.symm ha]

theorem get_isSome_iff : (get m k).isSome = true ↔ k ∈ m.map Prod.fst := by
  rw [← not_iff_not, ← get_eq_none_iff]
  simp

theorem mem_of_get {v : β} (h : get m k = some v) : (k, v) ∈ m := by
  induction m with
  | nil => cases h
  | cons e m ih =>
    obtain ⟨a, b⟩ := e
    by_cases ha : a = k
    · subst ha
      simp only [get, if_true, some.injEq] at h
      simp [h]
    · simp only [get, ha, if_false] at h
      exact mem_cons_of_mem _ (ih h)

theorem get_map {γ : Type} (g : β → γ) (m : List (κ × β)) (k : κ) :
    get (m.map fun e => (e.1, g e.2)) k = (get m k).map g := by
  induction m with
  | nil => rfl
  | cons e m ih => by_cases he : e.1 = k <;> simp [get, he, ih]

theorem get_foldl_set (entries : List (κ × β)) (m : List (κ × β)) (k : κ) :
    get (entries.foldl (fun m e => set m e.1 e.2) m) k = (get entries.reverse k).or (get m k) := by
  induction entries generalizing m with
  | nil => simp
  | cons e entries ih =>
    rw [foldl_cons, ih, reverse_cons, get_append, get_set]
    by_cases he : e.1 = k
    · subst he
      cases get entries.reverse e.1 <;> simp [get]
    · cases get entries.reverse k <;> simp [get, he]

/-- The value of a key is its last one in the entries. -/
theorem get_ofList (entries : List (κ × β)) (k : κ) :
    get (ofList entries) k = get entries.reverse k := by
  rw [ofList, get_foldl_set]
  simp

/-- Writes entries one after the other. -/
def setAll (m entries : List (κ × β)) : List (κ × β) :=
  entries.foldl (fun m e => set m e.1 e.2) m

theorem get_setAll (m entries : List (κ × β)) (k : κ) :
    get (setAll m entries) k = (get entries.reverse k).or (get m k) :=
  get_foldl_set entries m k

theorem get_reverse_append (m n : List (κ × β)) (k : κ) :
    get (m ++ n).reverse k = (get n.reverse k).or (get m.reverse k) := by
  rw [reverse_append, get_append]

variable {entries : List (κ × β)}

theorem get_reverse_eq_none (h : ∀ e ∈ entries, e.1 ≠ k) : get entries.reverse k = none := by
  rw [get_eq_none_iff, map_reverse, mem_reverse]
  intro hk
  obtain ⟨e, he, rfl⟩ := mem_map.mp hk
  exact h e he rfl

variable {e : κ × β}

/-- An entry that no later one overwrites is what its key reads. -/
theorem get_setAll_last {pre post : List (κ × β)} (h : entries = pre ++ e :: post)
    (hlast : ∀ e' ∈ post, e'.1 ≠ e.1) : get (setAll [] entries) e.1 = some e.2 := by
  subst h
  rw [get_setAll, get_reverse_append, reverse_cons, get_append, get_reverse_eq_none hlast]
  simp [get]

/-- Every entry of the map was written. -/
theorem mem_of_get_setAll {v : β} (h : get (setAll [] entries) k = some v) : (k, v) ∈ entries := by
  rw [get_setAll, get_nil, or_none] at h
  exact mem_reverse.mp (mem_of_get h)

/-- An entry whose key is written with one value only is what its key reads. -/
theorem get_setAll_of_unique (he : e ∈ entries)
    (h : ∀ e' ∈ entries, e'.1 = e.1 → e'.2 = e.2) : get (setAll [] entries) e.1 = some e.2 := by
  rw [get_setAll, get_nil, or_none]
  have hkey : e.1 ∈ entries.reverse.map Prod.fst := mem_map_of_mem (mem_reverse.mpr he)
  obtain ⟨v, hget⟩ := isSome_iff_exists.mp (get_isSome_iff.mpr hkey)
  rw [hget, ← h _ (mem_reverse.mp (mem_of_get hget)) rfl]

theorem set_map {γ : Type} (g : β → γ) (m : List (κ × β)) (k : κ) (v : β) :
    (set m k v).map (fun e => (e.1, g e.2)) = set (m.map fun e => (e.1, g e.2)) k (g v) := by
  induction m with
  | nil => rfl
  | cons e m ih => by_cases he : e.1 = k <;> simp [set, he, ih]

/-- Writing commutes with a change of the values. -/
theorem setAll_map {γ : Type} (g : β → γ) (m entries : List (κ × β)) :
    (setAll m entries).map (fun e => (e.1, g e.2)) =
      setAll (m.map fun e => (e.1, g e.2)) (entries.map fun e => (e.1, g e.2)) := by
  induction entries generalizing m with
  | nil => rfl
  | cons e entries ih =>
    change (setAll (set m e.1 e.2) entries).map _ = setAll (set _ e.1 (g e.2)) _
    rw [ih, set_map]

/-! ## The last entry of a key -/

/-- Entry `n` is the last one of its key. -/
def IsLast (entries : List (κ × β)) (n : Nat) (k : κ) (v : β) : Prop :=
  entries[n]? = some (k, v) ∧ ∀ i, n < i → ∀ w, entries[i]? ≠ some (k, w)

omit [DecidableEq κ] in
theorem isLast_concat {n : Nat} {v : β} : IsLast (entries ++ [e]) n k v ↔
      (e = (k, v) ∧ n = entries.length) ∨ (e.1 ≠ k ∧ IsLast entries n k v) := by
  constructor
  · rintro ⟨hn, hlater⟩
    rcases Nat.lt_trichotomy n entries.length with hlt | rfl | hgt
    · refine Or.inr ⟨?_, ?_, ?_⟩
      · rintro rfl
        exact hlater entries.length hlt e.2 (by simp)
      · rwa [List.getElem?_append_left hlt] at hn
      · intro i hi w hw
        have hilt : i < entries.length := (List.getElem?_eq_some_iff.mp hw).1
        exact hlater i hi w (by rw [List.getElem?_append_left hilt, hw])
    · exact Or.inl ⟨by simpa using hn, rfl⟩
    · have hnone : (entries ++ [e])[n]? = none := by
        rw [List.getElem?_eq_none_iff]
        simp
        omega
      rw [hnone] at hn
      cases hn
  · rintro (⟨rfl, rfl⟩ | ⟨hne, hn, hlater⟩)
    · refine ⟨by simp, fun i hi w hw => ?_⟩
      have hlt := (List.getElem?_eq_some_iff.mp hw).1
      simp at hlt
      omega
    · have hlt : n < entries.length := (List.getElem?_eq_some_iff.mp hn).1
      refine ⟨by rw [List.getElem?_append_left hlt, hn], fun i hi w hw => ?_⟩
      by_cases hilt : i < entries.length
      · rw [List.getElem?_append_left hilt] at hw
        exact hlater i hi w hw
      · have hi' : i = entries.length := by
          have hlt' := (List.getElem?_eq_some_iff.mp hw).1
          simp at hlt'
          omega
        subst hi'
        simp only [List.getElem?_append_right (Nat.le_refl _), Nat.sub_self,
          List.getElem?_cons_zero, some.injEq] at hw
        exact hne (by rw [hw])

/-- Reading entries from the end finds the last one, together with what its
position was marked with. -/
theorem get_reverse_mapIdx {γ : Type} (tag : Nat → β → γ) (entries : List (κ × β)) (k : κ) (x : γ) :
    get (entries.mapIdx fun n e => (e.1, tag n e.2)).reverse k = some x ↔
      ∃ n v, x = tag n v ∧ IsLast entries n k v := by
  induction entries using reverseRecOn with
  | nil => simp [IsLast]
  | append_singleton entries e ih =>
    simp only [mapIdx_append, mapIdx_cons, mapIdx_nil, reverse_append,
      reverse_cons, reverse_nil, nil_append, cons_append, get, isLast_concat,
      Nat.zero_add]
    by_cases he : e.1 = k
    · subst he
      simp only [if_true, some.injEq, ne_eq, not_true_eq_false, false_and, or_false]
      constructor
      · rintro rfl
        exact ⟨entries.length, e.2, rfl, rfl, rfl⟩
      · rintro ⟨n, v, rfl, hv, rfl⟩
        rw [hv]
    · rw [if_neg he, ih]
      constructor
      · rintro ⟨n, v, rfl, hlast⟩
        exact ⟨n, v, rfl, Or.inr ⟨he, hlast⟩⟩
      · rintro ⟨n, v, rfl, ⟨hv, -⟩ | ⟨-, hlast⟩⟩
        · rw [hv] at he
          exact absurd rfl he
        · exact ⟨n, v, rfl, hlast⟩

/-- A key that occurs has a last entry. -/
theorem exists_isLast_of_mem (h : k ∈ entries.map Prod.fst) : ∃ n v, IsLast entries n k v := by
  have hkeys : (entries.mapIdx fun n e => (e.1, (n, e.2))).map Prod.fst = entries.map Prod.fst := by
    apply ext_getElem?
    intro i
    simp [Function.comp_def]
  have hsome : (get (entries.mapIdx fun n e => (e.1, (n, e.2))).reverse k).isSome = true := by
    rw [get_isSome_iff, map_reverse, mem_reverse, hkeys]
    exact h
  obtain ⟨x, hx⟩ := isSome_iff_exists.mp hsome
  obtain ⟨n, v, -, hlast⟩ := (get_reverse_mapIdx Prod.mk entries k x).mp hx
  exact ⟨n, v, hlast⟩

/-! ## Maps without repeated keys -/

theorem keys_set (m : List (κ × β)) (k : κ) (v : β) : (set m k v).map Prod.fst =
      if k ∈ m.map Prod.fst then m.map Prod.fst else m.map Prod.fst ++ [k] := by
  induction m with
  | nil => simp [set]
  | cons e m ih =>
    obtain ⟨a, b⟩ := e
    by_cases ha : a = k
    · simp [set, ha]
    · simp only [set, ha, if_false, map_cons, mem_cons, Ne.symm ha, false_or, ih]
      split <;> simp

theorem nodup_set (h : (m.map Prod.fst).Nodup) (k : κ) (v : β) :
    ((set m k v).map Prod.fst).Nodup := by
  rw [keys_set]
  split
  · exact h
  · rename_i hk
    exact nodup_append.mpr ⟨h, by simp, by rintro a ha b hb rfl; simp_all⟩

theorem nodup_setAll (h : (m.map Prod.fst).Nodup) (entries : List (κ × β)) :
    ((setAll m entries).map Prod.fst).Nodup := by
  induction entries generalizing m with
  | nil => exact h
  | cons e entries ih => exact ih (nodup_set h e.1 e.2)

theorem nodup_ofList (entries : List (κ × β)) : ((ofList entries).map Prod.fst).Nodup :=
  nodup_setAll (m := []) nodup_nil entries

theorem set_of_notMem (h : k ∉ m.map Prod.fst) (v : β) : set m k v = m ++ [(k, v)] := by
  induction m with
  | nil => rfl
  | cons e m ih =>
    rw [map_cons, mem_cons, not_or] at h
    rw [set, if_neg (Ne.symm h.1), ih h.2]
    rfl

/-- Entries without repeated keys are their own map. -/
theorem ofList_eq_self (h : (entries.map Prod.fst).Nodup) : ofList entries = entries := by
  induction entries using reverseRecOn with
  | nil => rfl
  | append_singleton entries e ih =>
    rw [map_append, nodup_append] at h
    have hnot : e.1 ∉ entries.map Prod.fst := fun hm => h.2.2 _ hm _ (by simp) rfl
    have hset : ofList (entries ++ [e]) = set (ofList entries) e.1 e.2 := by
      rw [ofList, foldl_concat]
      rfl
    rw [hset, ih h.1, set_of_notMem hnot]

theorem set_set (m : List (κ × β)) (k : κ) (v w : β) : set (set m k v) k w = set m k w := by
  induction m with
  | nil => simp [set]
  | cons e m ih => by_cases he : e.1 = k <;> simp [set, he, ih]

/-- A key that is there keeps its place, so another one may be written before it. -/
theorem set_comm {k' : κ} (hk : k ∈ m.map Prod.fst) (hne : k' ≠ k) (v w : β) :
    set (set m k' w) k v = set (set m k v) k' w := by
  induction m with
  | nil => cases hk
  | cons e m ih =>
    obtain ⟨a, b⟩ := e
    by_cases ha : a = k
    · subst ha
      simp [set, Ne.symm hne]
    · have hk' : k ∈ m.map Prod.fst := by simpa [Ne.symm ha] using hk
      by_cases ha' : a = k'
      · simp [set, ha, ha', hne]
      · simp [set, ha, ha', ih hk']

/-- Writing a key last is writing it first and never again. -/
theorem set_setAll (hk : k ∈ m.map Prod.fst) (entries : List (κ × β))
    (v : β) : set (setAll m entries) k v =
      setAll (set m k v) (entries.filter fun e => e.1 ≠ k) := by
  induction entries generalizing m with
  | nil => rfl
  | cons e entries ih =>
    have hk' : k ∈ (set m e.1 e.2).map Prod.fst := by
      rw [keys_set]
      split
      · exact hk
      · exact mem_append_left _ hk
    have hcons : setAll m (e :: entries) = setAll (set m e.1 e.2) entries := rfl
    rw [hcons, ih hk']
    by_cases he : e.1 = k
    · rw [filter_cons_of_neg (by simpa using he), he, set_set]
    · rw [filter_cons_of_pos (by simpa using he), set_comm hk he]
      rfl

/-- Without repeated keys an entry is what reading its key finds. -/
theorem get_of_mem (h : (m.map Prod.fst).Nodup) (he : e ∈ m) : get m e.1 = some e.2 := by
  induction m with
  | nil => cases he
  | cons e' m ih =>
    rw [map_cons, nodup_cons] at h
    rcases mem_cons.mp he with rfl | he
    · simp [get]
    · have hne : e'.1 ≠ e.1 := fun heq => h.1 (heq ▸ mem_map_of_mem he)
      simp only [get, hne, if_false]
      exact ih h.2 he

/-- Without repeated keys the order does not matter. -/
theorem get_reverse (h : (m.map Prod.fst).Nodup) (k : κ) : get m.reverse k = get m k := by
  by_cases hk : k ∈ m.map Prod.fst
  · obtain ⟨e, he, rfl⟩ := mem_map.mp hk
    have hnodup : (m.reverse.map Prod.fst).Nodup := by
      rw [map_reverse]
      exact (reverse_perm _).nodup_iff.mpr h
    rw [get_of_mem h he, get_of_mem hnodup (mem_reverse.mpr he)]
  · have hk' : k ∉ m.reverse.map Prod.fst := by
      rw [map_reverse, mem_reverse]
      exact hk
    rw [get_eq_none_iff.mpr hk, get_eq_none_iff.mpr hk']

omit [DecidableEq κ] in
/-- Without repeated keys every entry is the last one of its key. -/
theorem exists_isLast_iff (h : (m.map Prod.fst).Nodup) {v : β} :
    (∃ n, IsLast m n k v) ↔ (k, v) ∈ m := by
  constructor
  · rintro ⟨n, hn, -⟩
    exact mem_of_getElem? hn
  · intro hmem
    obtain ⟨n, hn⟩ := List.getElem?_of_mem hmem
    refine ⟨n, hn, fun i hi w hw => ?_⟩
    have hkeys : (m.map Prod.fst)[n]? = (m.map Prod.fst)[i]? := by simp [hn, hw]
    have hlt : n < (m.map Prod.fst).length := by
      simpa using (List.getElem?_eq_some_iff.mp hn).1
    have := (List.getElem?_inj hlt h).mp hkeys
    omega

theorem mem_of_mem_ofList (he : e ∈ ofList entries) : e ∈ entries := by
  have hget := get_of_mem (nodup_ofList entries) he
  rw [get_ofList] at hget
  exact mem_reverse.mp (mem_of_get hget)

/-- A test of the keys leaves a key that passes it alone. -/
theorem get_filter_key {p : κ → Bool} (hk : p k = true) (m : List (κ × β)) :
    get (m.filter fun e => p e.1) k = get m k := by
  induction m with
  | nil => rfl
  | cons e m ih =>
    by_cases he : p e.1 = true
    · have hcons : ((e :: m).filter fun e => p e.1) = e :: m.filter fun e => p e.1 :=
        filter_cons_of_pos he
      rw [hcons, get, get, ih]
    · have hne : e.1 ≠ k := by
        rintro rfl
        exact he hk
      have hcons : ((e :: m).filter fun e => p e.1) = m.filter fun e => p e.1 :=
        filter_cons_of_neg he
      rw [hcons, ih, get, if_neg hne]

theorem get_filter (h : (m.map Prod.fst).Nodup) (p : β → Bool) (k : κ) :
    get (m.filter fun e => p e.2) k = (get m k).filter p := by
  induction m with
  | nil => rfl
  | cons e m ih =>
    obtain ⟨a, b⟩ := e
    rw [map_cons, nodup_cons] at h
    by_cases ha : a = k
    · subst ha
      have hnone : get m a = none := get_eq_none_iff.mpr h.1
      by_cases hb : p b = true
      · simp [get, hb, Option.filter]
      · rw [filter_cons_of_neg (by simpa using hb), ih h.2, hnone]
        simp [get, hb, Option.filter]
    · by_cases hb : p b = true
      · simp [get, hb, ha, ih h.2]
      · rw [filter_cons_of_neg (by simpa using hb), ih h.2]
        simp [get, ha]

/-! ## Maps over the same keys -/

/-- Two maps with the same keys in the same order and related values. -/
def Alike {γ : Type} (R : β → γ → Prop) (m : List (κ × β)) (m' : List (κ × γ)) : Prop :=
  List.Forall₂ (fun e e' => e'.1 = e.1 ∧ R e.2 e'.2) m m'

variable {γ : Type} {R : β → γ → Prop} {m : List (κ × β)} {m' : List (κ × γ)}

theorem Alike.set (h : Alike R m m') (k : κ) {v : β} {v' : γ} (hv : R v v') :
    Alike R (set m k v) (set m' k v') := by
  induction h with
  | nil => exact .cons ⟨rfl, hv⟩ .nil
  | @cons e e' es es' he hes ih =>
    obtain ⟨a, b⟩ := e
    obtain ⟨a', b'⟩ := e'
    obtain ⟨rfl, hb⟩ := he
    by_cases hk : a' = k
    · simp only [Assoc.set, hk, if_true]
      exact .cons ⟨rfl, hv⟩ hes
    · simp only [Assoc.set, hk, if_false]
      exact .cons ⟨rfl, hb⟩ ih

theorem Alike.erase (h : Alike R m m') (k : κ) : Alike R (erase m k) (erase m' k) := by
  induction h with
  | nil => exact .nil
  | @cons e e' es es' he hes ih =>
    by_cases hk : e.1 = k
    · have hk' : e'.1 = k := he.1.trans hk
      simpa [Assoc.erase, hk, hk'] using ih
    · have hk' : ¬ e'.1 = k := fun h => hk (he.1.symm.trans h)
      simp only [Assoc.erase, ne_eq, hk, hk', not_false_eq_true, decide_true, filter_cons_of_pos]
      exact .cons he ih

omit [DecidableEq κ] in
/-- Where related values are equal, the maps are. -/
theorem Alike.eq {R : β → β → Prop} {m' : List (κ × β)} (h : Alike R m m')
    (heq : ∀ e ∈ m, ∀ v, R e.2 v → v = e.2) : m' = m := by
  induction h with
  | nil => rfl
  | @cons e e' es es' he hes ih =>
    rw [ih fun x hx => heq x (mem_cons_of_mem _ hx),
      Prod.ext he.1 (heq e mem_cons_self e'.2 he.2)]

end Assoc
