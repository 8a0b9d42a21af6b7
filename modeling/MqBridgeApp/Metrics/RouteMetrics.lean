import MqBridgeApp.Lib.Text
import MqBridgeApp.Lib.Assoc
import MqBridgeApp.Lib.Steps
import Mathlib.Data.Rat.Cast.Order

/-!
# Route metrics

Counters, samples and start times by key, and the calls that work on them under three locks. A call that waits
for a lock keeps those that it has.
-/

namespace MqBridge.Metrics

/-- A time in nanoseconds. -/
abbrev Instant := Nat

structure RouteMetricSample where
  totalMessages : Nat
  observedAt : Instant
  smoothedThroughput : ℚ
  lastChangeAt : Instant
deriving DecidableEq

def throughputTau : ℚ := 1 / 2

/-- When a count last grew, from a total and the time of its last change. -/
def lastChange (previous : Option (Nat × Instant)) (totalMessages : Nat) (observedAt : Instant) : Instant :=
  match previous with
  | some (total, lastChangeAt) => if totalMessages ≤ total then lastChangeAt else observedAt
  | none => observedAt

def nextRouteMetricSample (exp : ℚ → ℚ) (previous : Option RouteMetricSample) (totalMessages : Nat) (observedAt : Instant) :
    RouteMetricSample where
  totalMessages
  observedAt
  smoothedThroughput :=
    match previous with
    | some sample =>
      let elapsed : ℚ := (observedAt - sample.observedAt : Nat) / 1000000000
      if 0 < elapsed then
        let currentRate := max ((totalMessages : ℚ) - sample.totalMessages) 0 / elapsed
        let alpha := 1 - exp (-elapsed / throughputTau)
        alpha * currentRate + (1 - alpha) * sample.smoothedThroughput
      else sample.smoothedThroughput
    | none => 0
  lastChangeAt := lastChange (previous.map fun sample => (sample.totalMessages, sample.lastChangeAt)) totalMessages observedAt

/-- A call, by what it does next. From the second step on it has the lock on the counters. -/
inductive MetricsCall where
  | counterFor (key : Text)
  | counterMade (key : Text) (counter : Nat)
  | forget (key : Text)
  | counterGone (key : Text)
  | sampleGone (key : Text)
  | sampler (now : Instant)
  | reading (now : Instant)
  | sampling (now : Instant) (remaining : List Text)
  | done
deriving DecidableEq

def MetricsCall.writesCounters : MetricsCall → Bool
  | .counterMade _ _ | .counterGone _ | .sampleGone _ => true
  | _ => false

/-- The call has a lock on the counters, to change them or to read them. -/
def MetricsCall.holdsCounters : MetricsCall → Bool
  | .reading _ | .sampling _ _ => true
  | call => call.writesCounters

def MetricsCall.writesSamples : MetricsCall → Bool
  | .sampling _ _ => true
  | _ => false

/-- What happened to a key, for the record. -/
inductive MetricsEvent where
  | created (key : Text) (counter value : Nat)
  | forgot (key : Text)
  | sampled (key : Text) (counter : Nat) (sample : RouteMetricSample)

/-- A key has a counter by its number, since who counts may keep a counter that its key has lost. -/
structure RouteMetrics where
  counters : List (Text × Nat) := []
  values : Nat → Nat := fun _ => 0
  samples : List (Text × RouteMetricSample) := []
  starts : List (Text × Instant) := []
  /-- How many counters there have been. -/
  made : Nat := 0
  calls : List MetricsCall := []
  /-- The latest event comes first. -/
  history : List MetricsEvent := []

namespace RouteMetrics

inductive Action where
  | begin (call : MetricsCall)
  | count (counter : Nat)
  | resume (index : Nat) (clock : Instant)
  | sampleNext (index : Nat) (key : Text)

variable (metrics : RouteMetrics)

def setCall (index : Nat) (call : MetricsCall) : RouteMetrics := { metrics with calls := metrics.calls.set index call }

def countersFree : Bool := metrics.calls.all fun call => !call.holdsCounters

def countersUnwritten : Bool := metrics.calls.all fun call => !call.writesCounters

def samplesFree : Bool := metrics.calls.all fun call => !call.writesSamples

def resume (index : Nat) (clock : Instant) : MetricsCall → Option RouteMetrics
  | .counterFor key =>
    if metrics.countersFree then
      match metrics.counters.lookup key with
      | some counter => some (metrics.setCall index (.counterMade key counter))
      | none =>
        some { metrics.setCall index (.counterMade key metrics.made) with
          counters := Assoc.insert metrics.counters (key, metrics.made)
          values := Function.update metrics.values metrics.made 0
          made := metrics.made + 1
          history := .created key metrics.made 0 :: metrics.history }
    else none
  | .counterMade key _ =>
    let starts := match metrics.starts.lookup key with
      | some _ => metrics.starts
      | none => Assoc.insert metrics.starts (key, clock)
    some { metrics.setCall index .done with starts }
  | .forget key =>
    if metrics.countersFree then
      some { metrics.setCall index (.counterGone key) with counters := Assoc.erase metrics.counters key }
    else none
  | .counterGone key =>
    if metrics.samplesFree then
      some { metrics.setCall index (.sampleGone key) with samples := Assoc.erase metrics.samples key }
    else none
  | .sampleGone key =>
    some { metrics.setCall index .done with
      starts := Assoc.erase metrics.starts key
      history := .forgot key :: metrics.history }
  | .sampler now =>
    if metrics.countersUnwritten then some (metrics.setCall index (.reading now)) else none
  | .reading now =>
    if metrics.samplesFree then
      some (metrics.setCall index (.sampling now (metrics.counters.map Prod.fst)))
    else none
  | .sampling _ [] => some (metrics.setCall index .done)
  | .sampling _ (_ :: _) => none
  | .done => none

variable (exp : ℚ → ℚ)

/-- The sampler comes to a key, in whatever order the map gives them. -/
def sampleNext (index : Nat) (key : Text) : MetricsCall → Option RouteMetrics
  | .sampling now remaining =>
    if key ∈ remaining then
      (metrics.counters.lookup key).map fun counter =>
        let sample := nextRouteMetricSample exp (metrics.samples.lookup key) (metrics.values counter) now
        { metrics.setCall index (.sampling now (remaining.erase key)) with
          samples := Assoc.insert metrics.samples (key, sample)
          history := .sampled key counter sample :: metrics.history }
    else none
  | _ => none

def step (metrics : RouteMetrics) : Action → Option RouteMetrics
  | .begin (.counterFor key) => some { metrics with calls := metrics.calls ++ [.counterFor key] }
  | .begin (.forget key) => some { metrics with calls := metrics.calls ++ [.forget key] }
  | .begin (.sampler now) => some { metrics with calls := metrics.calls ++ [.sampler now] }
  | .begin _ => none
  | .count counter =>
    if counter < metrics.made then
      some { metrics with values := Function.update metrics.values counter (metrics.values counter + 1) }
    else none
  | .resume index clock => metrics.calls[index]?.bind (metrics.resume index clock)
  | .sampleNext index key => metrics.calls[index]?.bind (metrics.sampleNext exp index key)

end RouteMetrics

end MqBridge.Metrics
