import MqBridgeApp.Lib.Lists
import MqBridgeApp.Metrics.RouteMetrics
import Mathlib.Tactic.Linarith
import Mathlib.Tactic.Ring
import Mathlib.Algebra.Order.Field.Basic

/-!
# Smoothed rates

A route's samples over all its observations: the smoothed rate stays below the largest rate of an
interval, and the last change is the last observation of a larger count.
-/

namespace MqBridge.Metrics

/-- A count, when it was read, and the weight its interval is given. -/
structure Observation where
  total : ℚ
  time : Instant
  weight : ℚ
  nonneg : 0 ≤ weight
  le_one : weight ≤ 1

structure ExactSample where
  totalMessages : ℚ
  observedAt : Instant
  smoothedThroughput : ℚ
  lastChangeAt : Instant

/-- Seconds between two instants, or none for an instant that is not later. -/
def elapsedSecs (earlier later : Instant) : ℚ := (later - earlier : Nat) / 1000000000

/-- The rate between two counts, which a count that was reset does not make negative. -/
def intervalRate (earlier later : ℚ) (elapsed : ℚ) : ℚ := max (later - earlier) 0 / elapsed

def nextSample (weight : ℚ) (previous : Option ExactSample) (total : ℚ) (observedAt : Instant) : ExactSample where
  totalMessages := total
  observedAt
  smoothedThroughput :=
    match previous with
    | some sample =>
      let elapsed := elapsedSecs sample.observedAt observedAt
      if 0 < elapsed then
        weight * intervalRate sample.totalMessages total elapsed + (1 - weight) * sample.smoothedThroughput
      else sample.smoothedThroughput
    | none => 0
  lastChangeAt :=
    match previous with
    | some sample => if total ≤ sample.totalMessages then sample.lastChangeAt else observedAt
    | none => observedAt

def RouteMetricSample.exact (sample : RouteMetricSample) : ExactSample where
  totalMessages := sample.totalMessages
  observedAt := sample.observedAt
  smoothedThroughput := sample.smoothedThroughput
  lastChangeAt := sample.lastChangeAt

/-- The weight of an interval, which only a second observation has. -/
def intervalWeight (exp : ℚ → ℚ) (previous : Option RouteMetricSample) (observedAt : Instant) : ℚ :=
  match previous with
  | some sample => 1 - exp (-elapsedSecs sample.observedAt observedAt / throughputTau)
  | none => 0

theorem exact_nextRouteMetricSample (exp : ℚ → ℚ) (previous : Option RouteMetricSample) (totalMessages : Nat)
    (observedAt : Instant) :
    (nextRouteMetricSample exp previous totalMessages observedAt).exact =
      nextSample (intervalWeight exp previous observedAt) (previous.map RouteMetricSample.exact) totalMessages observedAt := by
  cases previous with
  | none => rfl
  | some sample =>
    simp only [nextRouteMetricSample, RouteMetricSample.exact, nextSample, intervalWeight, intervalRate, elapsedSecs,
      Option.map_some, Nat.cast_le]
    congr 1

def observe (previous : Option ExactSample) (observation : Observation) : Option ExactSample :=
  some (nextSample observation.weight previous observation.total observation.time)

def sampled (observations : List Observation) : Option ExactSample := observations.foldl observe none

def intervals (observations : List Observation) : List (Observation × Observation) := observations.zip observations.tail

def rates (observations : List Observation) : List ℚ :=
  ((intervals observations).filter fun pair => decide (pair.1.time < pair.2.time)).map fun pair =>
    intervalRate pair.1.total pair.2.total (elapsedSecs pair.1.time pair.2.time)

/-- The largest rate, or zero before there is one. -/
def largestRate (observations : List Observation) : ℚ := (rates observations).foldr max 0

/-- The time of the last observation of a larger count than the one before it, or of the first. -/
def lastGrowth (first : Observation) (rest : List Observation) : Instant :=
  (((intervals (first :: rest)).filter fun pair => decide (pair.1.total < pair.2.total)).getLast?.map fun pair =>
    pair.2.time).getD first.time

theorem elapsedSecs_pos {earlier later : Instant} : 0 < elapsedSecs earlier later ↔ earlier < later := by
  rw [elapsedSecs, div_pos_iff_of_pos_right (by norm_num), Nat.cast_pos]
  exact Nat.sub_pos_iff_lt

theorem intervalRate_nonneg (earlier later : ℚ) {elapsed : ℚ} (positive : 0 < elapsed) :
    0 ≤ intervalRate earlier later elapsed :=
  div_nonneg (le_max_right _ _) positive.le

theorem mean_le {weight a b bound : ℚ} (nonneg : 0 ≤ weight) (leOne : weight ≤ 1) (first : a ≤ bound) (second : b ≤ bound) :
    weight * a + (1 - weight) * b ≤ bound := by
  have left : weight * a ≤ weight * bound := mul_le_mul_of_nonneg_left first nonneg
  have right : (1 - weight) * b ≤ (1 - weight) * bound := mul_le_mul_of_nonneg_left second (by linarith)
  calc weight * a + (1 - weight) * b ≤ weight * bound + (1 - weight) * bound := add_le_add left right
    _ = bound := by ring

theorem nextSample_smoothed (observation : Observation) {sample : ExactSample} {bound : ℚ}
    (nonneg : 0 ≤ sample.smoothedThroughput) (below : sample.smoothedThroughput ≤ bound)
    (rate : sample.observedAt < observation.time →
      intervalRate sample.totalMessages observation.total (elapsedSecs sample.observedAt observation.time) ≤ bound) :
    0 ≤ (nextSample observation.weight (some sample) observation.total observation.time).smoothedThroughput ∧
      (nextSample observation.weight (some sample) observation.total observation.time).smoothedThroughput ≤ bound := by
  simp only [nextSample]
  split
  · next elapsed =>
    have current := intervalRate_nonneg sample.totalMessages observation.total elapsed
    constructor
    · have kept : 0 ≤ (1 - observation.weight) * sample.smoothedThroughput :=
        mul_nonneg (sub_nonneg.mpr observation.le_one) nonneg
      exact add_nonneg (mul_nonneg observation.nonneg current) kept
    · exact mean_le observation.nonneg observation.le_one (rate (elapsedSecs_pos.mp elapsed)) below
  · exact ⟨nonneg, below⟩

theorem intervals_concat {observations : List Observation} {last : Observation} (ends : observations.getLast? = some last)
    (next : Observation) : intervals (observations ++ [next]) = intervals observations ++ [(last, next)] := by
  induction observations with
  | nil => cases ends
  | cons first rest ih =>
    cases rest with
    | nil =>
      obtain rfl := Option.some.inj ends
      rfl
    | cons second rest =>
      have later := ih (by simpa [List.getLast?_cons_cons] using ends)
      exact congrArg ((first, second) :: ·) later

theorem foldr_max_le {values : List ℚ} {bound : ℚ} : values.foldr max 0 ≤ bound ↔ 0 ≤ bound ∧ ∀ value ∈ values, value ≤ bound := by
  induction values with
  | nil => simp
  | cons value rest ih =>
    rw [List.foldr_cons, max_le_iff, ih, List.forall_mem_cons]
    tauto

theorem largestRate_concat {observations : List Observation} {last : Observation} (ends : observations.getLast? = some last)
    (next : Observation) :
    largestRate observations ≤ largestRate (observations ++ [next]) ∧
      (last.time < next.time →
        intervalRate last.total next.total (elapsedSecs last.time next.time) ≤ largestRate (observations ++ [next])) := by
  obtain ⟨nonneg, all⟩ := foldr_max_le.mp (le_refl (largestRate (observations ++ [next])))
  constructor
  · apply foldr_max_le.mpr
    refine ⟨nonneg, fun rate member => all rate ?_⟩
    obtain ⟨pair, inside, rfl⟩ := List.mem_map.mp member
    rw [rates, intervals_concat ends, List.filter_append, List.map_append]
    exact List.mem_append_left _ (List.mem_map_of_mem inside)
  · intro later
    apply all
    rw [rates, intervals_concat ends, List.filter_append, List.map_append]
    apply List.mem_append_right
    simp [later]

theorem lastGrowth_concat {first : Observation} {rest : List Observation} {last : Observation}
    (ends : (first :: rest).getLast? = some last) (next : Observation) :
    lastGrowth first (rest ++ [next]) = if next.total ≤ last.total then lastGrowth first rest else next.time := by
  have concat := intervals_concat ends next
  rw [List.cons_append] at concat
  rw [lastGrowth, concat, List.filter_append]
  by_cases grew : last.total < next.total
  · rw [if_neg (not_le.mpr grew)]
    simp [grew]
  · rw [if_pos (not_lt.mp grew)]
    simp [grew, lastGrowth]

structure Series where
  first : Observation
  rest : List Observation
  ordered : ((first :: rest).map Observation.time).Pairwise (· ≤ ·)

def Series.observations (series : Series) : List Observation := series.first :: series.rest

/-- What a sample says of the observations it was made from. -/
structure Tracks (first : Observation) (rest : List Observation) (sample : ExactSample) : Prop where
  last : ∃ last, (first :: rest).getLast? = some last ∧ sample.totalMessages = last.total ∧ sample.observedAt = last.time
  nonneg : 0 ≤ sample.smoothedThroughput
  below : sample.smoothedThroughput ≤ largestRate (first :: rest)
  change : sample.lastChangeAt = lastGrowth first rest
  past : sample.lastChangeAt ≤ sample.observedAt
  grows : ∀ earlier sample', earlier <+: first :: rest → sampled earlier = some sample' →
    sample'.lastChangeAt ≤ sample.lastChangeAt

theorem sampled_concat (observations : List Observation) (next : Observation) :
    sampled (observations ++ [next]) = observe (sampled observations) next := by
  rw [sampled, List.foldl_append]
  rfl

theorem tracks_first (first : Observation) : Tracks first [] (nextSample first.weight none first.total first.time) where
  last := ⟨first, rfl, rfl, rfl⟩
  nonneg := le_refl 0
  below := le_refl 0
  change := rfl
  past := le_refl _
  grows := by
    intro earlier sample' front made
    rcases List.prefix_cons_iff.mp front with rfl | ⟨tail, rfl, empty⟩
    · cases made
    · obtain rfl := List.prefix_nil.mp empty
      obtain rfl := Option.some.inj made
      exact le_refl _

theorem Tracks.next {first : Observation} {rest : List Observation} {sample : ExactSample}
    (tracks : Tracks first rest sample) (made : sampled (first :: rest) = some sample) {next : Observation}
    (ordered : ∀ earlier ∈ first :: rest, earlier.time ≤ next.time) :
    Tracks first (rest ++ [next]) (nextSample next.weight (some sample) next.total next.time) := by
  obtain ⟨last, ends, total, observed⟩ := tracks.last
  have notEarlier : sample.observedAt ≤ next.time := observed ▸ ordered last (List.mem_of_getLast? ends)
  obtain ⟨wider, rate⟩ := largestRate_concat ends next
  have smoothed := nextSample_smoothed next tracks.nonneg (tracks.below.trans wider)
    (by rw [total, observed]; exact rate)
  have later : sample.lastChangeAt ≤ (nextSample next.weight (some sample) next.total next.time).lastChangeAt := by
    simp only [nextSample]
    split
    · exact le_refl _
    · exact tracks.past.trans notEarlier
  exact {
    last := ⟨next, by rw [← List.cons_append, List.getLast?_concat], rfl, rfl⟩
    nonneg := smoothed.1
    below := smoothed.2
    change := by
      rw [lastGrowth_concat ends, ← tracks.change, ← total]
      rfl
    past := by
      simp only [nextSample]
      split
      · exact tracks.past.trans notEarlier
      · exact le_refl _
    grows := by
      intro earlier sample' front made'
      rw [← List.cons_append, List.prefix_concat_iff] at front
      rcases front with rfl | front
      · rw [sampled_concat, made] at made'
        obtain rfl := Option.some.inj made'
        exact le_refl _
      · exact (tracks.grows earlier sample' front made').trans later }

/-- After every run of observations, the smoothed rate is between zero and the largest rate, and the last
change is the last growth, never after the last observation and never before the one of an earlier sample. -/
theorem sampled_tracks (series : Series) :
    ∃ sample, sampled series.observations = some sample ∧ Tracks series.first series.rest sample := by
  obtain ⟨first, rest, ordered⟩ := series
  induction rest using List.reverseRecOn with
  | nil => exact ⟨_, rfl, tracks_first first⟩
  | append_singleton rest next ih =>
    rw [← List.cons_append, List.map_append, List.pairwise_append] at ordered
    obtain ⟨sample, made, tracks⟩ := ih ordered.1
    refine ⟨_, ?_, tracks.next made ?_⟩
    · show sampled ((first :: rest) ++ [next]) = _
      have before : sampled (first :: rest) = some sample := made
      rw [sampled_concat, before]
      rfl
    · intro earlier member
      exact ordered.2.2 _ (List.mem_map_of_mem member) _ List.mem_cons_self

end MqBridge.Metrics
