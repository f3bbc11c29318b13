import Aoox.EnvironmentHistory

/-! # The rules for secret flags

Four rules decide the flag of a key, each one only where the ones before it say
nothing: the patch, the flag the key had, and for a new key its name.  `flagRule`
is these rules; `nextFlags` follows them except where it reads the previous flags
of a name that every object inherits.  There it finds the inherited member and
keeps it as if it were a flag, and it finds it again on the next write when the
first one stored nothing under the name.
-/
namespace Aoox

open JsString Environments Option

def flagMap (flags : List (JsString × Bool)) : SecretFlags :=
  flags.map fun e => (e.1, .bool e.2)

/-- A patch: `none` clears a flag. -/
def patchMap (patch : List (JsString × Option Bool)) : SecretFlags :=
  patch.map fun e => (e.1, e.2.elim .null .bool)

section Rules

variable (previous : List (JsString × Bool)) (previousKeys : List JsString)
  (patch : List (JsString × Option Bool))

def flagRule (key : JsString) : Option Bool :=
  match Assoc.get patch key with
  | some flag => flag
  | none =>
    match Assoc.get previous key with
    | some b => some b
    | none => if key ∉ previousKeys ∧ looksSecretName key = true then some true else none

/-- The patch gives the key a flag, or leaves it the one it has. -/
def GivenFlag (key : JsString) : Prop :=
  (∃ b, Assoc.get patch key = some (some b)) ∨
    Assoc.get patch key = none ∧ (Assoc.get previous key).isSome = true

theorem get_patchMap (key : JsString) :
    Assoc.get (patchMap patch) key = (Assoc.get patch key).map fun flag => flag.elim .null .bool :=
  Assoc.get_map (fun flag : Option Bool => flag.elim FlagValue.null .bool) patch key

theorem get_flagMap (key : JsString) :
    Assoc.get (flagMap previous) key = (Assoc.get previous key).map .bool :=
  Assoc.get_map FlagValue.bool previous key

theorem not_looksSecretName {key : JsString} (h : key ∈ objectPrototype) :
    looksSecretName key = false := by
  have hall : (objectPrototype.all fun key => !looksSecretName key) = true := by decide
  simpa using List.all_eq_true.mp hall key h

variable {previous previousKeys patch} {key : JsString}

theorem flagRule_inherited (h : key ∈ objectPrototype) :
    (flagRule previous previousKeys patch key).isSome = true ↔ GivenFlag previous patch key := by
  have hname := not_looksSecretName h
  rw [flagRule, GivenFlag]
  cases hpatch : Assoc.get patch key with
  | some flag => cases flag <;> simp
  | none => cases hprevious : Assoc.get previous key <;> simp [hname]

/-- Away from the inherited names the code follows the rules. -/
theorem nextFlag_of_not_inherited (h : key ∉ objectPrototype) :
    nextFlag (flagMap previous) previousKeys (patchMap patch) key =
      (flagRule previous previousKeys patch key).map .bool := by
  rw [nextFlag, flagRule, get_patchMap, readProp, get_flagMap, if_neg h, or_none]
  cases hpatch : Assoc.get patch key with
  | some flag => cases flag <;> rfl
  | none =>
    cases hprevious : Assoc.get previous key with
    | some b => rfl
    | none =>
      simp only [map_none]
      split <;> rfl

/-- With a flag to give it does so for an inherited name as well. -/
theorem nextFlag_of_givenFlag (h : GivenFlag previous patch key) :
    nextFlag (flagMap previous) previousKeys (patchMap patch) key =
      (flagRule previous previousKeys patch key).map .bool := by
  rw [nextFlag, flagRule, get_patchMap, readProp, get_flagMap]
  rcases h with ⟨b, hb⟩ | ⟨hpatch, hprevious⟩
  · rw [hb]
    rfl
  · obtain ⟨b, hb⟩ := isSome_iff_exists.mp hprevious
    rw [hpatch, hb]
    rfl

/-- Without one it stores what is inherited, unless the patch clears the flag. -/
theorem nextFlag_inherited (h : key ∈ objectPrototype) (hgiven : ¬ GivenFlag previous patch key) :
    nextFlag (flagMap previous) previousKeys (patchMap patch) key =
      if Assoc.get patch key = none then some .other else none := by
  rw [nextFlag, get_patchMap, readProp, get_flagMap, if_pos h]
  cases hpatch : Assoc.get patch key with
  | some flag =>
    cases flag with
    | some b => exact absurd (.inl ⟨b, hpatch⟩) hgiven
    | none => rfl
  | none =>
    cases hprevious : Assoc.get previous key with
    | some b => exact absurd (.inr ⟨hpatch, by rw [hprevious]; rfl⟩) hgiven
    | none => rfl

end Rules

/-! ## Writing twice -/

/-- The map of a write over flags, written again over the same keys without a patch. -/
def rewritten (flags : SecretFlags) (keys : List JsString) : SecretFlags :=
  nextFlags flags keys keys []

theorem nextFlag_again {flags : SecretFlags} {keys : List JsString} {key : JsString}
    (hkey : key ∈ keys) : nextFlag flags keys [] key = readProp flags key := by
  rw [nextFlag, Assoc.get_nil]
  cases readProp flags key <;> simp [hkey]

/-- Two writes that decide every key alike make the same map. -/
theorem nextFlags_congr {previous previous' : SecretFlags} {known known' keys : List JsString}
    {patch patch' : SecretFlags}
    (h : ∀ key ∈ keys, key ≠ js "__proto__" →
      nextFlag previous known patch key = nextFlag previous' known' patch' key) :
    nextFlags previous known keys patch = nextFlags previous' known' keys patch' := by
  rw [nextFlags, nextFlags]
  refine List.foldl_ext _ _ _ fun out key hkey => ?_
  rw [nextFlagStep, nextFlagStep]
  by_cases hproto : key = js "__proto__"
  · have hassign : ∀ v : FlagValue, assign out key v = out := fun v => if_pos hproto
    simp only [hassign]
    split <;> split <;> rfl
  · rw [h key hkey hproto]

theorem rewritten_eq_self {previous : SecretFlags} {known keys : List JsString}
    {patch : SecretFlags}
    (h : ∀ key ∈ keys, key ∈ objectPrototype → key ≠ js "__proto__" →
      (nextFlag previous known patch key).isSome = true) :
    rewritten (nextFlags previous known keys patch) keys = nextFlags previous known keys patch := by
  refine nextFlags_congr fun key hkey hproto => ?_
  rw [nextFlag_again hkey, readProp, get_nextFlags, if_pos ⟨hkey, hproto⟩]
  cases hnext : nextFlag previous known patch key with
  | some v => rfl
  | none =>
    rw [none_or, if_neg]
    intro hinherited
    have hsome := h key hkey hinherited hproto
    rw [hnext] at hsome
    cases hsome

theorem sameFlags_self (flags : SecretFlags) : sameFlags flags flags = true := by
  simp [sameFlags]

/-! ## What the flags of a write promise -/

structure FollowsRules (previous : List (JsString × Bool)) (previousKeys keys : List JsString)
    (patch : List (JsString × Option Bool)) (flags : SecretFlags) : Prop where
  among : ∀ e ∈ flags, e.1 ∈ keys ∧ ∃ b, e.2 = .bool b
  once : (flags.map Prod.fst).Nodup
  rule : ∀ key ∈ keys, Assoc.get flags key =
    (flagRule previous previousKeys patch key).map .bool
  again : rewritten flags keys = flags
  unchanged : sameFlags flags (rewritten flags keys) = true

/-- **The flags follow the rules exactly when every inherited name among the keys is given a flag
by the patch or by the flag it had, and `__proto__` is given none.** -/
theorem followsRules_iff (previous : List (JsString × Bool)) (previousKeys keys : List JsString)
    (patch : List (JsString × Option Bool)) :
    FollowsRules previous previousKeys keys patch
        (nextFlags (flagMap previous) previousKeys keys (patchMap patch)) ↔
      ∀ key ∈ keys, key ∈ objectPrototype →
        (GivenFlag previous patch key ↔ key ≠ js "__proto__") := by
  have hget := get_nextFlags (flagMap previous) previousKeys keys (patchMap patch)
  constructor
  · intro h key hkey hinherited
    have hrule := h.rule key hkey
    rw [hget] at hrule
    by_cases hproto : key = js "__proto__"
    · -- nothing can be stored under the name
      rw [if_neg (fun hk => hk.2 hproto)] at hrule
      refine iff_of_false (fun hgiven => ?_) (fun hne => hne hproto)
      have hsome := (@flagRule_inherited _ previousKeys _ _ hinherited).mpr hgiven
      rw [Option.map_eq_none_iff.mp hrule.symm] at hsome
      cases hsome
    · rw [if_pos ⟨hkey, hproto⟩] at hrule
      refine iff_of_true ?_ hproto
      by_contra hgiven
      have hnone : flagRule previous previousKeys patch key = none := by
        by_contra hne
        exact hgiven ((flagRule_inherited hinherited).mp (Option.isSome_iff_ne_none.mpr hne))
      have hnext := @nextFlag_inherited _ previousKeys _ _ hinherited hgiven
      rw [hrule, hnone] at hnext
      -- the patch cleared the flag, so the second write finds the inherited member
      have hclear : Assoc.get (nextFlags (flagMap previous) previousKeys keys (patchMap patch))
          key = none := by
        rw [h.rule key hkey, hnone]
        rfl
      have hagain := get_nextFlags
        (nextFlags (flagMap previous) previousKeys keys (patchMap patch)) keys keys [] key
      rw [if_pos ⟨hkey, hproto⟩, nextFlag_again hkey, readProp, hclear, if_pos hinherited] at hagain
      have hsame := h.again
      rw [rewritten] at hsame
      rw [hsame, hclear] at hagain
      cases hagain
  · intro h
    have hnext : ∀ key ∈ keys, key ≠ js "__proto__" →
        nextFlag (flagMap previous) previousKeys (patchMap patch) key =
          (flagRule previous previousKeys patch key).map .bool := by
      intro key hkey hproto
      by_cases hinherited : key ∈ objectPrototype
      · exact nextFlag_of_givenFlag ((h key hkey hinherited).mpr hproto)
      · exact nextFlag_of_not_inherited hinherited
    have hsame := @rewritten_eq_self (flagMap previous) previousKeys keys
      (patchMap patch) fun key hkey hinherited hproto => by
        rw [hnext key hkey hproto, Option.isSome_map]
        exact (flagRule_inherited hinherited).mpr ((h key hkey hinherited).mpr hproto)
    refine ⟨fun e he => ?_, nodup_nextFlags _ _ _ _, fun key hkey => ?_, hsame, ?_⟩
    · have hmem := Assoc.get_of_mem (nodup_nextFlags _ _ _ _) he
      rw [hget] at hmem
      split at hmem
      · rename_i hkey
        rw [hnext e.1 hkey.1 hkey.2] at hmem
        obtain ⟨b, -, hb⟩ := Option.map_eq_some_iff.mp hmem
        exact ⟨hkey.1, b, hb.symm⟩
      · cases hmem
    · rw [hget]
      by_cases hproto : key = js "__proto__"
      · have hinherited : key ∈ objectPrototype := by
          rw [hproto]
          decide
        have hnone : flagRule previous previousKeys patch key = none := by
          by_contra hne
          have hgiven := (flagRule_inherited hinherited).mp (Option.isSome_iff_ne_none.mpr hne)
          exact (h key hkey hinherited).mp hgiven hproto
        rw [if_neg (fun hk => hk.2 hproto), hnone]
        rfl
      · rw [if_pos ⟨hkey, hproto⟩, hnext key hkey hproto]
    · rw [hsame]
      exact sameFlags_self _

/-- A new variable `constructor` is stored with the inherited function as its flag. -/
theorem flags_constructor :
    nextFlags (flagMap []) [] [js "constructor"] (patchMap []) = [(js "constructor", .other)] ∧
      ¬ FollowsRules [] [] [js "constructor"] []
        (nextFlags (flagMap []) [] [js "constructor"] (patchMap [])) := by
  have hflags :
      nextFlags (flagMap []) [] [js "constructor"] (patchMap []) =
        [(js "constructor", .other)] := by
    decide
  refine ⟨hflags, fun h => ?_⟩
  rw [hflags] at h
  obtain ⟨-, b, hb⟩ := h.among (js "constructor", .other) List.mem_cons_self
  cases hb

end Aoox
