import Mathlib.Algebra.BigOperators.Ring.List
import Mathlib.Data.Rat.Floor

/-! # Averaging a bucket of metric samples

Once a minute the new points of each resource's containers are put in one bucket and
averaged.  `averageBucket` divides the grand total by one number of points per container,
so the means of the containers add up to its result only when they all have that many
(`right_iff_uniform`): a container that started or stopped inside the minute, or one whose
first point has no CPU value, is weighted with the wrong number of points.

Numbers are rationals here, and so the rounding of `Math.round` is the only one.
-/
open List Option Function
namespace Aoox.MetricBuckets

structure ContainerMetrics where
  cpuPercent : Option ℚ
  (memoryBytes memoryLimitBytes netRxBytes netTxBytes : ℚ)

/-- The averaged columns of a row; the sizes are stored as texts of these numbers. -/
structure MetricSample where
  cpuPercent : Option ℚ
  (memoryBytes memoryLimitBytes netRxBytes netTxBytes : ℤ)

/-- `Math.round`: the nearest integer, the higher one of two. -/
def mathRound (x : ℚ) : ℤ := ⌊x + 1 / 2⌋

/-- Two decimals. -/
def toCents (x : ℚ) : ℚ := mathRound (x * 100) / 100

def perContainer (points containers : Nat) : ℤ :=
  max 1 (mathRound (points / (max 1 containers : Nat)))

def averageBucket (points : List ContainerMetrics) (containers : Nat) : MetricSample :=
  let per := perContainer points.length containers
  let cpu := points.filterMap ContainerMetrics.cpuPercent
  let mean (pick : ContainerMetrics → ℚ) : ℤ := mathRound ((points.map pick).sum / per)
  { cpuPercent := if cpu.length = 0 then none else some (toCents (cpu.sum / per))
    memoryBytes := mean ContainerMetrics.memoryBytes
    memoryLimitBytes := mean ContainerMetrics.memoryLimitBytes
    netRxBytes := mean ContainerMetrics.netRxBytes
    netTxBytes := mean ContainerMetrics.netTxBytes }

/-- The fresh points of a resource, container by container; one without any is left out. -/
structure Bucket where
  groups : List (List ContainerMetrics)
  fresh : ∀ g ∈ groups, g ≠ []

/-- What `rollupMinute` stores for a bucket. -/
def Bucket.average (b : Bucket) : MetricSample := averageBucket b.groups.flatten b.groups.length

/-! ## The sum of the means -/

def meanOf (xs : List ℚ) : ℚ := xs.sum / xs.length

/-- The mean of every container's values, added up; a container without values adds nothing. -/
def sumOfMeans (xss : List (List ℚ)) : ℚ := (xss.map meanOf).sum

def Bucket.cpuValues (b : Bucket) : List (List ℚ) :=
  b.groups.map (List.filterMap ContainerMetrics.cpuPercent)

def Bucket.memoryValues (b : Bucket) : List (List ℚ) :=
  b.groups.map (List.map ContainerMetrics.memoryBytes)

/-- CPU and memory are the sums of the containers' own means, rounded as they are stored. -/
structure Right (b : Bucket) : Prop where
  cpu : b.average.cpuPercent =
    if ∀ xs ∈ b.cpuValues, xs = [] then none else some (toCents (sumOfMeans b.cpuValues))
  memory : b.average.memoryBytes = mathRound (sumOfMeans b.memoryValues)

/-- Which values are there, whatever they are. -/
def SameShape (b b' : Bucket) : Prop :=
  b.groups.map (List.map fun p => p.cpuPercent.isSome) =
    b'.groups.map (List.map fun p => p.cpuPercent.isSome)

/-- Every container has the same number of points, and CPU values in all of them or in none. -/
def Uniform (b : Bucket) : Prop :=
  (∀ g ∈ b.groups, ∀ g' ∈ b.groups, g.length = g'.length) ∧
    ∀ g ∈ b.groups, (∀ p ∈ g, p.cpuPercent.isSome = true) ∨ ∀ p ∈ g, p.cpuPercent = none

/-! ## Totals and means -/

theorem mathRound_int (z : ℤ) : mathRound z = z := by
  rw [mathRound, Int.floor_eq_iff]
  constructor <;> linarith

theorem toCents_int (z : ℤ) : toCents z = z := by
  rw [toCents, show (z : ℚ) * 100 = ((z * 100 : ℤ) : ℚ) by push_cast; rfl, mathRound_int]
  push_cast
  linarith

theorem perContainer_pos (points containers : Nat) : 0 < perContainer points containers :=
  lt_of_lt_of_le one_pos (le_max_left _ _)

theorem perContainer_mul {n containers : Nat} (hn : 0 < n) (hc : 0 < containers) :
    perContainer (containers * n) containers = n := by
  have hne : (containers : ℚ) ≠ 0 := by exact_mod_cast hc.ne'
  have hquot : ((containers * n : Nat) : ℚ) / (max 1 containers : Nat) = ((n : ℤ) : ℚ) := by
    rw [max_eq_right hc]
    push_cast
    exact mul_div_cancel_left₀ _ hne
  rw [perContainer, hquot, mathRound_int]
  exact max_eq_right (by exact_mod_cast hn)

/-- One divisor is right for every container that has that many values, or none. -/
theorem sum_div_eq_sumOfMeans {per : ℚ} {xss : List (List ℚ)}
    (h : ∀ xs ∈ xss, xs = [] ∨ (xs.length : ℚ) = per) :
    xss.flatten.sum / per = sumOfMeans xss := by
  induction xss with
  | nil => simp [sumOfMeans]
  | cons xs xss ih =>
    have hrest := ih fun ys hys => h ys (mem_cons_of_mem _ hys)
    have hmean : xs.sum / per = meanOf xs := by
      rcases h xs mem_cons_self with rfl | hlen
      · simp [meanOf]
      · rw [meanOf, hlen]
    rw [flatten_cons, sum_append, add_div, hrest, hmean]
    rfl

/-- Nothing but zeros. -/
def Blank (xss : List (List ℚ)) : Prop := ∀ xs ∈ xss, ∀ x ∈ xs, x = 0

theorem sum_blank {xss : List (List ℚ)} (h : Blank xss) :
    xss.flatten.sum = 0 ∧ sumOfMeans xss = 0 := by
  constructor
  · refine sum_eq_zero fun x hx => ?_
    obtain ⟨xs, hxs, hx⟩ := mem_flatten.mp hx
    exact h xs hxs x hx
  · refine sum_eq_zero fun m hm => ?_
    obtain ⟨xs, hxs, rfl⟩ := mem_map.mp hm
    rw [meanOf, sum_eq_zero (h xs hxs), zero_div]

/-- One value and zeros otherwise: the total is the value, its container decides the mean. -/
theorem sum_spiked {front back : List (List ℚ)} {xs ys : List ℚ} (hfront : Blank front)
    (hback : Blank back) (hxs : Blank [xs]) (hys : Blank [ys]) (t : ℚ) :
    (front ++ (xs ++ t :: ys) :: back).flatten.sum = t ∧
      sumOfMeans (front ++ (xs ++ t :: ys) :: back) = t / (xs ++ t :: ys).length := by
  have hsum : (xs ++ t :: ys).sum = t := by
    have hx := (sum_blank hxs).1
    have hy := (sum_blank hys).1
    simp only [flatten_cons, flatten_nil, append_nil] at hx hy
    rw [sum_append, sum_cons, hx, hy, zero_add, add_zero]
  constructor
  · rw [flatten_append, flatten_cons, sum_append, sum_append, hsum,
      (sum_blank hfront).1, (sum_blank hback).1, zero_add, add_zero]
  · have hfront' := (sum_blank hfront).2
    have hback' := (sum_blank hback).2
    simp only [sumOfMeans] at hfront' hback' ⊢
    rw [map_append, map_cons, sum_append, sum_cons, hfront', hback', meanOf,
      hsum, zero_add, add_zero]

/-! ## What a bucket is divided by -/

def Bucket.per (b : Bucket) : ℤ := perContainer b.groups.flatten.length b.groups.length

theorem average_memory (b : Bucket) :
    b.average.memoryBytes = mathRound (b.memoryValues.flatten.sum / b.per) := by
  rw [Bucket.memoryValues, ← map_flatten]
  rfl

theorem average_cpu (b : Bucket) : b.average.cpuPercent = if b.cpuValues.flatten = [] then none
      else some (toCents (b.cpuValues.flatten.sum / b.per)) := by
  rw [Bucket.cpuValues, ← filterMap_flatten]
  simp only [← length_eq_zero_iff]
  rfl

variable {b : Bucket}

theorem SameShape.per {b' : Bucket} (h : SameShape b b') : b'.per = b.per := by
  have hgroups : b'.groups.length = b.groups.length := by
    have := congrArg List.length h
    simpa using this.symm
  have hpoints : b'.groups.flatten.length = b.groups.flatten.length := by
    have := congrArg (fun gs => (flatten gs).length) h
    simp only [← map_flatten, length_map] at this
    exact this.symm
  rw [Bucket.per, Bucket.per, hgroups, hpoints]

variable {g : List ContainerMetrics}

theorem Uniform.per (h : Uniform b) (hg : g ∈ b.groups) : b.per = g.length := by
  have hlen : ∀ g' ∈ b.groups, g'.length = g.length := fun g' hg' => h.1 g' hg' g hg
  have hpoints : b.groups.flatten.length = b.groups.length * g.length := by
    rw [length_flatten, eq_replicate_of_mem (l := b.groups.map List.length) (a := g.length)
      (fun n hn => by
        obtain ⟨g', hg', rfl⟩ := mem_map.mp hn
        exact hlen g' hg')]
    simp
  rw [Bucket.per, hpoints]
  exact perContainer_mul (length_pos_iff.mpr (b.fresh g hg)) (length_pos_of_mem hg)

/-- **A uniform bucket is averaged right.** -/
theorem Uniform.right (h : Uniform b) : Right b := by
  constructor
  · rw [average_cpu]
    have hempty : b.cpuValues.flatten = [] ↔ ∀ xs ∈ b.cpuValues, xs = [] := flatten_eq_nil_iff
    by_cases hnone : ∀ xs ∈ b.cpuValues, xs = []
    · rw [if_pos hnone, if_pos (hempty.mpr hnone)]
    · rw [if_neg hnone, if_neg (fun h => hnone (hempty.mp h))]
      refine congrArg (fun x => some (toCents x)) (sum_div_eq_sumOfMeans fun xs hxs => ?_)
      obtain ⟨g, hg, rfl⟩ := mem_map.mp hxs
      rcases h.2 g hg with hall | hno
      · refine .inr ?_
        have hlen : (g.filterMap ContainerMetrics.cpuPercent).length = g.length :=
          filterMap_length_eq_length.mpr hall
        rw [hlen, h.per hg]
        rfl
      · exact .inl (filterMap_eq_nil_iff.mpr hno)
  · rw [average_memory]
    refine congrArg mathRound (sum_div_eq_sumOfMeans fun xs hxs => .inr ?_)
    obtain ⟨g, hg, rfl⟩ := mem_map.mp hxs
    rw [length_map, h.per hg]
    rfl

/-! ## A bucket that is not uniform -/

/-- The same point with other values. -/
def ContainerMetrics.withValue (p : ContainerMetrics) (t : ℚ) : ContainerMetrics :=
  { p with cpuPercent := p.cpuPercent.map fun _ => t, memoryBytes := t }

theorem isSome_withValue (t : ℚ) (p : ContainerMetrics) :
    (p.withValue t).cpuPercent.isSome = p.cpuPercent.isSome := by
  cases h : p.cpuPercent <;> simp [ContainerMetrics.withValue, h]

def zeroed (g : List ContainerMetrics) : List ContainerMetrics := g.map fun p => p.withValue 0

theorem blank_memory (gs : List (List ContainerMetrics)) :
    Blank ((gs.map zeroed).map (List.map ContainerMetrics.memoryBytes)) := by
  intro xs hxs x hx
  simp only [List.map_map, List.mem_map, comp_apply] at hxs
  obtain ⟨g, -, rfl⟩ := hxs
  obtain ⟨q, hq, rfl⟩ := mem_map.mp hx
  obtain ⟨p, -, rfl⟩ := mem_map.mp hq
  rfl

theorem blank_cpu (gs : List (List ContainerMetrics)) :
    Blank ((gs.map zeroed).map (filterMap ContainerMetrics.cpuPercent)) := by
  intro xs hxs x hx
  simp only [List.map_map, List.mem_map, comp_apply] at hxs
  obtain ⟨g, -, rfl⟩ := hxs
  obtain ⟨q, hq, hx⟩ := mem_filterMap.mp hx
  obtain ⟨p, -, rfl⟩ := mem_map.mp hq
  obtain ⟨_, -, rfl⟩ := map_eq_some_iff.mp hx
  rfl

theorem shape_zeroed (g : List ContainerMetrics) :
    ((zeroed g).map fun p => p.cpuPercent.isSome) = g.map fun p => p.cpuPercent.isSome := by
  simp [zeroed, isSome_withValue]

theorem length_filterMap_cpu (g : List ContainerMetrics) :
    (g.filterMap ContainerMetrics.cpuPercent).length =
      (g.map fun p => p.cpuPercent.isSome).count true := by
  induction g with
  | nil => rfl
  | cons p g ih => cases h : p.cpuPercent <;> simp [h, ih]

/-- All values but the ones of a point are zero. -/
theorem exists_spiked (b : Bucket) (hg : g ∈ b.groups) {p : ContainerMetrics} (hp : p ∈ g) (t : ℚ) :
    ∃ b', SameShape b b' ∧
      (b'.memoryValues.flatten.sum = t ∧ sumOfMeans b'.memoryValues = t / g.length) ∧
      (p.cpuPercent.isSome = true → b'.cpuValues.flatten.sum = t ∧
        sumOfMeans b'.cpuValues = t / (g.filterMap ContainerMetrics.cpuPercent).length ∧
        ∃ xs ∈ b'.cpuValues, xs ≠ []) := by
  obtain ⟨front, back, hgroups⟩ := append_of_mem hg
  obtain ⟨before, behind, rfl⟩ := append_of_mem hp
  have hfresh : ∀ h ∈ front.map zeroed ++
      (zeroed before ++ p.withValue t :: zeroed behind) :: back.map zeroed, h ≠ [] := by
    have hold : ∀ h, h ∈ b.groups → zeroed h ≠ [] := fun h hh hnil =>
      b.fresh h hh (map_eq_nil_iff.mp hnil)
    intro h hh
    rcases mem_append.mp hh with hh | hh
    · obtain ⟨h, hmem, rfl⟩ := mem_map.mp hh
      exact hold h (by simp [hgroups, hmem])
    rcases mem_cons.mp hh with rfl | hh
    · simp
    · obtain ⟨h, hmem, rfl⟩ := mem_map.mp hh
      exact hold h (by simp [hgroups, hmem])
  refine ⟨⟨_, hfresh⟩, ?_, ?_, fun hsome => ?_⟩
  · simp [SameShape, hgroups, comp_def, shape_zeroed, isSome_withValue]
  · have hspiked := sum_spiked (blank_memory front) (blank_memory back) (blank_memory [before])
      (blank_memory [behind]) t
    simpa [Bucket.memoryValues, ContainerMetrics.withValue, zeroed] using hspiked
  · obtain ⟨c, hc⟩ := isSome_iff_exists.mp hsome
    have hspiked := sum_spiked (blank_cpu front) (blank_cpu back) (blank_cpu [before])
      (blank_cpu [behind]) t
    have hvalues : Bucket.cpuValues ⟨_, hfresh⟩ =
        (front.map zeroed).map (filterMap ContainerMetrics.cpuPercent) ++
          ((zeroed before).filterMap ContainerMetrics.cpuPercent ++
            t :: (zeroed behind).filterMap ContainerMetrics.cpuPercent) ::
          (back.map zeroed).map (filterMap ContainerMetrics.cpuPercent) := by
      simp [Bucket.cpuValues, ContainerMetrics.withValue, hc]
    have hlen : ((before ++ p :: behind).filterMap ContainerMetrics.cpuPercent).length =
        ((zeroed before).filterMap ContainerMetrics.cpuPercent ++
          t :: (zeroed behind).filterMap ContainerMetrics.cpuPercent).length := by
      simp [length_filterMap_cpu, shape_zeroed, hsome]
    rw [hvalues, hlen]
    exact ⟨hspiked.1, hspiked.2, _, mem_append_right _ mem_cons_self, by simp⟩

/-- A value that both divisors divide tells them apart. -/
theorem eq_of_rounded {f : ℚ → ℚ} (hf : ∀ z : ℤ, f z = z) {n : Nat} {per : ℤ} (hn : 0 < n)
    (hper : 0 < per)
    (h : f (((n * per : ℤ) : ℚ) / per) = f (((n * per : ℤ) : ℚ) / n)) : (n : ℤ) = per := by
  have hn' : (n : ℚ) ≠ 0 := by exact_mod_cast hn.ne'
  have hper' : (per : ℚ) ≠ 0 := by exact_mod_cast hper.ne'
  have hleft : ((n * per : ℤ) : ℚ) / per = ((n : ℤ) : ℚ) := by
    push_cast
    exact mul_div_cancel_right₀ _ hper'
  have hright : ((n * per : ℤ) : ℚ) / n = (per : ℚ) := by
    push_cast
    exact mul_div_cancel_left₀ _ hn'
  rw [hleft, hright, hf, hf] at h
  exact_mod_cast h

/-- Every container has the number of points all are divided by. -/
theorem length_eq_per (h : ∀ b', SameShape b b' → Right b')
    (hg : g ∈ b.groups) : (g.length : ℤ) = b.per := by
  obtain ⟨p, hp⟩ := exists_mem_of_ne_nil g (b.fresh g hg)
  obtain ⟨b', hshape, ⟨htotal, hmeans⟩, -⟩ :=
    exists_spiked b hg hp (((g.length : ℤ) * b.per : ℤ) : ℚ)
  have hright := (h b' hshape).memory
  rw [average_memory, htotal, hmeans, hshape.per] at hright
  exact eq_of_rounded (f := fun x => mathRound x) (fun z => by rw [mathRound_int])
    (length_pos_of_mem hp) (perContainer_pos _ _) (congrArg Int.cast hright)

/-- A container with a CPU value has as many of them. -/
theorem cpuLength_eq_per (h : ∀ b', SameShape b b' → Right b') (hg : g ∈ b.groups)
    {p : ContainerMetrics} (hp : p ∈ g) (hsome : p.cpuPercent.isSome = true) :
    ((g.filterMap ContainerMetrics.cpuPercent).length : ℤ) = b.per := by
  obtain ⟨c, hc⟩ := isSome_iff_exists.mp hsome
  obtain ⟨b', hshape, -, hcpu⟩ := exists_spiked b hg hp
    ((((g.filterMap ContainerMetrics.cpuPercent).length : ℤ) * b.per : ℤ) : ℚ)
  obtain ⟨htotal, hmeans, xs, hxs, hne⟩ := hcpu hsome
  have hright := (h b' hshape).cpu
  have hsome' : ¬ ∀ xs ∈ b'.cpuValues, xs = [] := fun hall => hne (hall xs hxs)
  rw [average_cpu, if_neg (fun h => hsome' (flatten_eq_nil_iff.mp h)), if_neg hsome', htotal,
    hmeans, hshape.per] at hright
  exact eq_of_rounded toCents_int (length_pos_of_mem (mem_filterMap.mpr ⟨p, hp, hc⟩))
    (perContainer_pos _ _) (some.inj hright)

theorem Uniform.of_shape {b' : Bucket} (h : Uniform b) (hshape : SameShape b b') : Uniform b' := by
  have hback : ∀ g' ∈ b'.groups, ∃ g ∈ b.groups,
      (g.map fun p => p.cpuPercent.isSome) = g'.map fun p => p.cpuPercent.isSome := by
    intro g' hg'
    have hmem := mem_map_of_mem (f := List.map fun p => p.cpuPercent.isSome) hg'
    rw [← hshape] at hmem
    exact mem_map.mp hmem
  refine ⟨fun g₁ hg₁ g₂ hg₂ => ?_, fun g' hg' => ?_⟩
  · obtain ⟨h₁, hh₁, he₁⟩ := hback g₁ hg₁
    obtain ⟨h₂, hh₂, he₂⟩ := hback g₂ hg₂
    have hlen₁ := congrArg List.length he₁
    have hlen₂ := congrArg List.length he₂
    simp only [length_map] at hlen₁ hlen₂
    rw [← hlen₁, ← hlen₂, h.1 h₁ hh₁ h₂ hh₂]
  · obtain ⟨g, hg, he⟩ := hback g' hg'
    have hmem : ∀ p' ∈ g', ∃ p ∈ g, p.cpuPercent.isSome = p'.cpuPercent.isSome := by
      intro p' hp'
      have hin := mem_map_of_mem (f := fun p => p.cpuPercent.isSome) hp'
      rw [← he] at hin
      exact mem_map.mp hin
    rcases h.2 g hg with hall | hno
    · refine .inl fun p' hp' => ?_
      obtain ⟨p, hp, heq⟩ := hmem p' hp'
      exact heq ▸ hall p hp
    · refine .inr fun p' hp' => ?_
      obtain ⟨p, hp, heq⟩ := hmem p' hp'
      rw [hno p hp] at heq
      exact not_isSome_iff_eq_none.mp (by simp [← heq])

/-- **When the averages are the sums of the containers' means.**  Whatever the values are, if
and only if every container has the same number of points, and CPU values in all of them or in
none. -/
theorem right_iff_uniform (b : Bucket) : (∀ b', SameShape b b' → Right b') ↔ Uniform b := by
  constructor
  · intro h
    refine ⟨fun g hg g' hg' => ?_, fun g hg => ?_⟩
    · exact_mod_cast (length_eq_per h hg).trans (length_eq_per h hg').symm
    · by_cases hno : ∀ p ∈ g, p.cpuPercent = none
      · exact .inr hno
      · obtain ⟨p, hp, hsome⟩ : ∃ p ∈ g, p.cpuPercent ≠ none := by simpa using hno
        have hlen := (cpuLength_eq_per h hg hp (Option.isSome_iff_ne_none.mpr hsome)).trans
          (length_eq_per h hg).symm
        exact .inl (List.filterMap_length_eq_length.mp (by exact_mod_cast hlen))
  · intro h b' hshape
    exact (h.of_shape hshape).right

def point (cpu : Option ℚ) (memory : ℚ) : ContainerMetrics := ⟨cpu, memory, 1000, 10, 20⟩

/-- Two containers, one of which started in the last third of the minute. -/
def startedLate : Bucket where
  groups := [[point (some 60) 60, point (some 60) 60, point (some 60) 60], [point (some 30) 30]]
  fresh := by simp

/-- The total of the means is 90, and 105 is stored. -/
theorem late_start_overweighted :
    startedLate.average.memoryBytes = 105 ∧ startedLate.average.cpuPercent = some 105 ∧
      mathRound (sumOfMeans startedLate.memoryValues) = 90 ∧
      toCents (sumOfMeans startedLate.cpuValues) = 90 ∧ ¬ Right startedLate := by
  refine ⟨by decide +kernel, by decide +kernel, by decide +kernel, by decide +kernel, fun h => ?_⟩
  exact absurd h.memory (by decide +kernel)

end Aoox.MetricBuckets
