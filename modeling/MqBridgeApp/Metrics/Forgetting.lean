import MqBridgeApp.Metrics.RouteMetrics

/-!
# A forgotten key stays forgotten

Who changes the counters keeps everybody else from them until the call is over, so a sample is only written
under a counter that is still there.
-/

namespace MqBridge.Metrics

/-- The key that the call has taken the counter of. -/
def MetricsCall.removed : MetricsCall → Option Text
  | .counterGone key | .sampleGone key => some key
  | _ => none

def Exclusive (calls : List MetricsCall) : Prop :=
  ∀ {i j : Nat} {writer holder : MetricsCall}, calls[i]? = some writer → calls[j]? = some holder →
    writer.writesCounters = true → holder.holdsCounters = true → i = j

def MetricsEvent.counter : MetricsEvent → Option Nat
  | .created _ counter _ | .sampled _ counter _ => some counter
  | .forgot _ => none

/-- The key was forgotten, and has not been created again since. -/
def wasForgotten (key : Text) : List MetricsEvent → Bool
  | [] => false
  | .created created _ _ :: earlier => created != key && wasForgotten key earlier
  | .forgot forgotten :: earlier => forgotten == key || wasForgotten key earlier
  | .sampled _ _ _ :: earlier => wasForgotten key earlier

/-- A counter is new and at zero when it is created, and its first sample is of no throughput. -/
def MetricsEvent.Fair (earlier : List MetricsEvent) : MetricsEvent → Prop
  | .created _ counter value => value = 0 ∧ ∀ event ∈ earlier, event.counter ≠ some counter
  | .sampled _ counter sample =>
    (∀ key sample, .sampled key counter sample ∉ earlier) → sample.smoothedThroughput = 0
  | .forgot _ => True

structure RouteMetrics.Consistent (metrics : RouteMetrics) : Prop where
  exclusive : Exclusive metrics.calls
  removed : ∀ call ∈ metrics.calls, ∀ key, call.removed = some key → metrics.counters.lookup key = none
  cleared : ∀ key, .sampleGone key ∈ metrics.calls → metrics.samples.lookup key = none
  sampled : ∀ key sample, metrics.samples.lookup key = some sample →
    (∃ counter, metrics.counters.lookup key = some counter) ∨ .counterGone key ∈ metrics.calls
  observed : ∀ key sample counter, metrics.samples.lookup key = some sample →
    metrics.counters.lookup key = some counter → ∃ key sample, .sampled key counter sample ∈ metrics.history
  forgotten : ∀ key, wasForgotten key metrics.history = true →
    metrics.counters.lookup key = none ∧ metrics.samples.lookup key = none
  made : ∀ key counter, metrics.counters.lookup key = some counter → counter < metrics.made
  recorded : ∀ event ∈ metrics.history, ∀ counter, event.counter = some counter → counter < metrics.made
  fair : ∀ event earlier, (event :: earlier) <:+ metrics.history → event.Fair earlier

section
variable {calls : List MetricsCall} {index : Nat} {old call other : MetricsCall}

theorem holds_of_writes (writes : call.writesCounters = true) : call.holdsCounters = true := by
  cases call <;> first | rfl | cases writes

theorem exclusive_append (exclusive : Exclusive calls) (idle : call.holdsCounters = false) :
    Exclusive (calls ++ [call]) := by
  have kept : ∀ {i : Nat} {found : MetricsCall}, (calls ++ [call])[i]? = some found → found.holdsCounters = true →
      calls[i]? = some found := by
    intro i found there holds
    rcases Steps.call_of_append there with there | ⟨-, rfl⟩
    · exact there
    · rw [idle] at holds
      cases holds
  intro i j writer holder first second writes holds
  exact exclusive (kept first (holds_of_writes writes)) (kept second holds) writes holds

/-- A call goes on with no more than it had. -/
theorem exclusive_shrink (exclusive : Exclusive calls) (there : calls[index]? = some old)
    (writes : call.writesCounters = true → old.writesCounters = true)
    (holds : call.holdsCounters = true → old.holdsCounters = true) : Exclusive (calls.set index call) := by
  intro i j writer holder first second writing holding
  have writerBefore : ∃ before, calls[i]? = some before ∧ before.writesCounters = true := by
    rcases Steps.call_of_set first with ⟨rfl, rfl⟩ | ⟨-, first⟩
    · exact ⟨old, there, writes writing⟩
    · exact ⟨writer, first, writing⟩
  have holderBefore : ∃ before, calls[j]? = some before ∧ before.holdsCounters = true := by
    rcases Steps.call_of_set second with ⟨rfl, rfl⟩ | ⟨-, second⟩
    · exact ⟨old, there, holds holding⟩
    · exact ⟨holder, second, holding⟩
  obtain ⟨_, first, writing⟩ := writerBefore
  obtain ⟨_, second, holding⟩ := holderBefore
  exact exclusive first second writing holding

theorem exclusive_free (free : calls.all (fun call => !call.holdsCounters) = true) : Exclusive (calls.set index call) := by
  have idle : ∀ {i : Nat} {found : MetricsCall}, (calls.set index call)[i]? = some found → found.holdsCounters = true →
      index = i := by
    intro i found there holds
    rcases Steps.call_of_set there with ⟨same, -⟩ | ⟨-, there⟩
    · exact same
    · have none := List.all_eq_true.mp free found (List.mem_of_getElem? there)
      rw [holds] at none
      cases none
  intro i j writer holder first second writes holds
  exact (idle first (holds_of_writes writes)).symm.trans (idle second holds)

theorem exclusive_unwritten (unwritten : calls.all (fun call => !call.writesCounters) = true)
    (reads : call.writesCounters = false) : Exclusive (calls.set index call) := by
  intro i j writer holder first second writes holds
  rcases Steps.call_of_set first with ⟨-, rfl⟩ | ⟨-, first⟩
  · rw [reads] at writes
    cases writes
  · have none := List.all_eq_true.mp unwritten writer (List.mem_of_getElem? first)
    rw [writes] at none
    cases none

theorem not_removed_of_free (free : calls.all (fun call => !call.holdsCounters) = true) (member : call ∈ calls) :
    call.removed = none := by
  have idle := List.all_eq_true.mp free call member
  cases call <;> first | rfl | cases idle

theorem mem_of_removed {next : MetricsCall} {key : Text} (clear : next.removed = none) (member : call ∈ calls.set index next)
    (removes : call.removed = some key) : call ∈ calls := by
  rcases List.mem_or_eq_of_mem_set member with member | rfl
  · exact member
  · rw [clear] at removes
    cases removes

end

/-! ### Steps -/

namespace RouteMetrics
variable {metrics after : RouteMetrics} {index : Nat} {clock : Instant}

/-- A step that leaves the maps alone, and begins or ends no removal. -/
theorem Consistent.frame (kept : metrics.Consistent) (counters : after.counters = metrics.counters)
    (samples : after.samples = metrics.samples) (made : after.made = metrics.made)
    (history : after.history = metrics.history) (exclusive : Exclusive after.calls)
    (old : ∀ call ∈ after.calls, ∀ key, call.removed = some key → call ∈ metrics.calls)
    (gone : ∀ key, .counterGone key ∈ metrics.calls → .counterGone key ∈ after.calls) : after.Consistent where
  exclusive := exclusive
  removed call member key removes := by
    rw [counters]
    exact kept.removed call (old call member key removes) key removes
  cleared key member := by
    rw [samples]
    exact kept.cleared key (old _ member key rfl)
  sampled key sample found := by
    rw [counters]
    exact (kept.sampled key sample (samples ▸ found)).imp id (gone key)
  observed key sample counter found counted := by
    rw [history]
    exact kept.observed key sample counter (samples ▸ found) (counters ▸ counted)
  forgotten key forgot := by
    rw [counters, samples]
    exact kept.forgotten key (history ▸ forgot)
  made key counter counted := by
    rw [made]
    exact kept.made key counter (counters ▸ counted)
  recorded event member := by
    rw [made]
    exact kept.recorded event (history ▸ member)
  fair event earlier suffix := kept.fair event earlier (history ▸ suffix)

theorem fair_cons {event : MetricsEvent} {history : List MetricsEvent} (own : event.Fair history)
    (fair : ∀ event earlier, (event :: earlier) <:+ history → event.Fair earlier) :
    ∀ other earlier, (other :: earlier) <:+ (event :: history) → other.Fair earlier := by
  intro other earlier suffix
  rcases List.suffix_cons_iff.mp suffix with same | inside
  · obtain ⟨rfl, rfl⟩ := List.cons.inj same
    exact own
  · exact fair other earlier inside

theorem consistent_begin (kept : metrics.Consistent) {call : MetricsCall} (idle : call.holdsCounters = false)
    (removes : call.removed = none) : Consistent { metrics with calls := metrics.calls ++ [call] } := by
  refine kept.frame rfl rfl rfl rfl (exclusive_append kept.exclusive idle) ?_ ?_
  · intro other member key removed
    rcases List.mem_append.mp member with old | new
    · exact old
    · obtain rfl := List.mem_singleton.mp new
      rw [removes] at removed
      cases removed
  · intro key member
    exact List.mem_append_left _ member

theorem Consistent.setCall (kept : metrics.Consistent) {old call : MetricsCall} (there : metrics.calls[index]? = some old)
    (counters : after.counters = metrics.counters) (samples : after.samples = metrics.samples)
    (made : after.made = metrics.made) (history : after.history = metrics.history)
    (calls : after.calls = metrics.calls.set index call) (exclusive : Exclusive (metrics.calls.set index call))
    (removes : call.removed = none) (stays : ∀ key, old ≠ .counterGone key) : after.Consistent := by
  refine kept.frame counters samples made history (calls ▸ exclusive) ?_ ?_
  · intro other member key removed
    rw [calls] at member
    exact mem_of_removed removes member removed
  · intro key member
    rw [calls]
    exact Steps.mem_set_of_ne there member (stays key).symm

theorem consistent_create (kept : metrics.Consistent) {key : Text} (free : metrics.countersFree = true)
    (absent : metrics.counters.lookup key = none) :
    Consistent { metrics.setCall index (.counterMade key metrics.made) with
      counters := Assoc.insert metrics.counters (key, metrics.made)
      values := Function.update metrics.values metrics.made 0
      made := metrics.made + 1
      history := .created key metrics.made 0 :: metrics.history } := by
  have idle : ∀ call ∈ metrics.calls.set index (.counterMade key metrics.made), call.removed = none := by
    intro call member
    rcases List.mem_or_eq_of_mem_set member with member | rfl
    · exact not_removed_of_free free member
    · rfl
  have counted : ∀ {key sample}, metrics.samples.lookup key = some sample →
      ∃ counter, metrics.counters.lookup key = some counter := by
    intro key sample found
    rcases kept.sampled key sample found with counted | member
    · exact counted
    · cases not_removed_of_free free member
  have lookup (other : Text) : (Assoc.insert metrics.counters (key, metrics.made)).lookup other =
      if other == key then some metrics.made else metrics.counters.lookup other := Assoc.lookup_insert _ _ _
  refine ⟨exclusive_free free, ?_, ?_, ?_, ?_, ?_, ?_, ?_, ?_⟩
  · intro call member other removes
    rw [idle call member] at removes
    cases removes
  · intro other member
    cases idle _ member
  · intro other sample found
    left
    dsimp only
    rw [lookup]
    split
    · exact ⟨_, rfl⟩
    · exact counted found
  · intro other sample counter found new
    dsimp only at found new
    rw [lookup] at new
    split at new
    · next same =>
      obtain rfl := eq_of_beq same
      obtain ⟨counter, present⟩ := counted found
      rw [absent] at present
      cases present
    · obtain ⟨seen, sample, member⟩ := kept.observed other sample counter found new
      exact ⟨seen, sample, List.mem_cons_of_mem _ member⟩
  · intro other forgot
    obtain ⟨apart, forgot⟩ := Bool.and_eq_true_iff.mp forgot
    have apart : ¬(other == key) = true := fun same => by
      rw [eq_of_beq same] at apart
      simp at apart
    dsimp only
    rw [lookup, if_neg apart]
    exact kept.forgotten other forgot
  · intro other counter new
    dsimp only at new ⊢
    rw [lookup] at new
    split at new
    · obtain rfl := Option.some.inj new
      exact Nat.lt_succ_self _
    · exact Nat.lt_succ_of_lt (kept.made other counter new)
  · intro event member counter mentioned
    rcases List.mem_cons.mp member with rfl | member
    · obtain rfl := Option.some.inj mentioned
      exact Nat.lt_succ_self _
    · exact Nat.lt_succ_of_lt (kept.recorded event member counter mentioned)
  · refine fair_cons ⟨rfl, ?_⟩ kept.fair
    intro event member mentioned
    exact Nat.lt_irrefl _ (kept.recorded event member _ mentioned)

theorem consistent_forget (kept : metrics.Consistent) {key : Text} (there : metrics.calls[index]? = some (.forget key))
    (free : metrics.countersFree = true) :
    Consistent { metrics.setCall index (.counterGone key) with counters := Assoc.erase metrics.counters key } := by
  have lookup (other : Text) : (Assoc.erase metrics.counters key).lookup other =
      if other == key then none else metrics.counters.lookup other := Assoc.lookup_erase _ _ _
  have removing : MetricsCall.counterGone key ∈ metrics.calls.set index (.counterGone key) :=
    List.mem_set (List.getElem?_eq_some_iff.mp there).1 _
  have counted : ∀ {other counter}, (Assoc.erase metrics.counters key).lookup other = some counter →
      metrics.counters.lookup other = some counter := by
    intro other counter found
    rw [lookup] at found
    split at found
    · cases found
    · exact found
  refine ⟨exclusive_free free, ?_, ?_, ?_, ?_, ?_, ?_, kept.recorded, kept.fair⟩
  · intro call member other removes
    rcases List.mem_or_eq_of_mem_set member with member | rfl
    · rw [not_removed_of_free free member] at removes
      cases removes
    · obtain rfl := Option.some.inj removes
      dsimp only
      rw [lookup, if_pos (beq_self_eq_true key)]
  · intro other member
    rcases List.mem_or_eq_of_mem_set member with member | same
    · cases not_removed_of_free free member
    · cases same
  · intro other sample found
    dsimp only
    rw [lookup]
    split
    · next same =>
      obtain rfl := eq_of_beq same
      exact .inr removing
    · rcases kept.sampled other sample found with counted | member
      · exact .inl counted
      · cases not_removed_of_free free member
  · intro other sample counter found new
    exact kept.observed other sample counter found (counted new)
  · intro other forgot
    obtain ⟨none, clear⟩ := kept.forgotten other forgot
    refine ⟨?_, clear⟩
    dsimp only
    rw [lookup]
    split
    · rfl
    · exact none
  · intro other counter new
    exact kept.made other counter (counted new)

theorem consistent_counterGone (kept : metrics.Consistent) {key : Text}
    (there : metrics.calls[index]? = some (.counterGone key)) :
    Consistent { metrics.setCall index (.sampleGone key) with samples := Assoc.erase metrics.samples key } := by
  have lookup (other : Text) : (Assoc.erase metrics.samples key).lookup other =
      if other == key then none else metrics.samples.lookup other := Assoc.lookup_erase _ _ _
  have none := kept.removed _ (List.mem_of_getElem? there) key rfl
  have seen : ∀ {other sample}, (Assoc.erase metrics.samples key).lookup other = some sample →
      other ≠ key ∧ metrics.samples.lookup other = some sample := by
    intro other sample found
    rw [lookup] at found
    split at found
    · cases found
    · next apart => exact ⟨fun same => apart (beq_iff_eq.mpr same), found⟩
  refine ⟨exclusive_shrink kept.exclusive there (fun _ => rfl) (fun _ => rfl), ?_, ?_, ?_, ?_, ?_, kept.made, kept.recorded,
    kept.fair⟩
  · intro call member other removes
    rcases List.mem_or_eq_of_mem_set member with member | rfl
    · exact kept.removed call member other removes
    · obtain rfl := Option.some.inj removes
      exact none
  · intro other member
    dsimp only
    rw [lookup]
    rcases List.mem_or_eq_of_mem_set member with member | same
    · split
      · rfl
      · exact kept.cleared other member
    · obtain rfl := MetricsCall.sampleGone.inj same
      exact if_pos (beq_self_eq_true other)
  · intro other sample found
    obtain ⟨apart, found⟩ := seen found
    rcases kept.sampled other sample found with counted | member
    · exact .inl counted
    · exact .inr (Steps.mem_set_of_ne there member fun same => apart (MetricsCall.counterGone.inj same))
  · intro other sample counter found
    exact kept.observed other sample counter (seen found).2
  · intro other forgot
    obtain ⟨none, clear⟩ := kept.forgotten other forgot
    refine ⟨none, ?_⟩
    dsimp only
    rw [lookup]
    split
    · rfl
    · exact clear

theorem consistent_sampleGone (kept : metrics.Consistent) {key : Text} {starts : List (Text × Instant)}
    (there : metrics.calls[index]? = some (.sampleGone key)) :
    Consistent { metrics.setCall index .done with starts, history := .forgot key :: metrics.history } := by
  have member := List.mem_of_getElem? there
  refine ⟨exclusive_shrink kept.exclusive there (fun writes => by cases writes) (fun holds => by cases holds), ?_, ?_, ?_, ?_, ?_, kept.made, ?_, ?_⟩
  · intro call inside other removes
    exact kept.removed call (mem_of_removed rfl inside removes) other removes
  · intro other inside
    exact kept.cleared other (mem_of_removed rfl inside rfl)
  · intro other sample found
    exact (kept.sampled other sample found).imp id fun inside => Steps.mem_set_of_ne there inside nofun
  · intro other sample counter found counted
    obtain ⟨seen, sample, inside⟩ := kept.observed other sample counter found counted
    exact ⟨seen, sample, List.mem_cons_of_mem _ inside⟩
  · intro other forgot
    rcases Bool.or_eq_true_iff.mp forgot with same | forgot
    · obtain rfl := eq_of_beq same
      exact ⟨kept.removed _ member key rfl, kept.cleared key member⟩
    · exact kept.forgotten other forgot
  · intro event inside counter mentioned
    rcases List.mem_cons.mp inside with rfl | inside
    · cases mentioned
    · exact kept.recorded event inside counter mentioned
  · exact fair_cons trivial kept.fair

theorem consistent_sampleNext {exp : ℚ → ℚ} (kept : metrics.Consistent) {key : Text} {now : Instant}
    {remaining left : List Text} {counter : Nat} (there : metrics.calls[index]? = some (.sampling now remaining))
    (counted : metrics.counters.lookup key = some counter) :
    let sample := nextRouteMetricSample exp (metrics.samples.lookup key) (metrics.values counter) now
    Consistent { metrics.setCall index (.sampling now left) with
      samples := Assoc.insert metrics.samples (key, sample)
      history := .sampled key counter sample :: metrics.history } := by
  intro sample
  have lookup (other : Text) : (Assoc.insert metrics.samples (key, sample)).lookup other =
      if other == key then some sample else metrics.samples.lookup other := Assoc.lookup_insert _ _ _
  have absent : ∀ {other}, metrics.counters.lookup other = none → metrics.samples.lookup other = none →
      (Assoc.insert metrics.samples (key, sample)).lookup other = none := by
    intro other none clear
    rw [lookup, if_neg, clear]
    intro same
    rw [eq_of_beq same, counted] at none
    cases none
  refine ⟨exclusive_shrink kept.exclusive there (fun writes => by cases writes) (fun _ => rfl), ?_, ?_, ?_, ?_, ?_, kept.made, ?_, ?_⟩
  · intro call inside other removes
    exact kept.removed call (mem_of_removed rfl inside removes) other removes
  · intro other inside
    have before := mem_of_removed rfl inside rfl
    exact absent (kept.removed _ before other rfl) (kept.cleared other before)
  · intro other found seen
    dsimp only at seen
    rw [lookup] at seen
    split at seen
    · next same =>
      obtain rfl := eq_of_beq same
      exact .inl ⟨counter, counted⟩
    · exact (kept.sampled other found seen).imp id fun inside => Steps.mem_set_of_ne there inside nofun
  · intro other found number seen present
    dsimp only at seen present
    rw [lookup] at seen
    split at seen
    · next same =>
      obtain rfl := eq_of_beq same
      obtain rfl := Option.some.inj (counted.symm.trans present)
      exact ⟨other, sample, List.mem_cons_self⟩
    · obtain ⟨name, earlier, inside⟩ := kept.observed other found number seen present
      exact ⟨name, earlier, List.mem_cons_of_mem _ inside⟩
  · intro other forgot
    obtain ⟨none, clear⟩ := kept.forgotten other forgot
    exact ⟨none, absent none clear⟩
  · intro event inside number mentioned
    rcases List.mem_cons.mp inside with rfl | inside
    · obtain rfl := Option.some.inj mentioned
      exact kept.made key counter counted
    · exact kept.recorded event inside number mentioned
  · refine fair_cons ?_ kept.fair
    intro first
    -- a sample that was there would have been seen on this counter
    have clear : metrics.samples.lookup key = none := by
      cases seen : metrics.samples.lookup key with
      | none => rfl
      | some earlier =>
        obtain ⟨name, found, inside⟩ := kept.observed key earlier counter seen counted
        exact absurd inside (first name found)
    show (nextRouteMetricSample exp (metrics.samples.lookup key) (metrics.values counter) now).smoothedThroughput = 0
    rw [clear]
    rfl

theorem consistent_resume {call : MetricsCall} (kept : metrics.Consistent) (there : metrics.calls[index]? = some call)
    (resumed : metrics.resume index clock call = some after) : after.Consistent := by
  unfold resume at resumed
  cases call with
  | counterFor key =>
    dsimp only at resumed
    split at resumed
    · next free =>
      cases found : metrics.counters.lookup key with
      | some counter =>
        simp only [found, Option.some.injEq] at resumed
        obtain rfl := resumed
        exact kept.setCall there rfl rfl rfl rfl rfl (exclusive_free free) rfl nofun
      | none =>
        simp only [found, Option.some.injEq] at resumed
        obtain rfl := resumed
        exact consistent_create kept free found
    · cases resumed
  | counterMade key counter =>
    obtain rfl := Option.some.inj resumed
    exact kept.setCall there rfl rfl rfl rfl rfl
      (exclusive_shrink kept.exclusive there (fun writes => by cases writes) (fun holds => by cases holds)) rfl nofun
  | forget key =>
    dsimp only at resumed
    split at resumed
    · next free =>
      obtain rfl := Option.some.inj resumed
      exact consistent_forget kept there free
    · cases resumed
  | counterGone key =>
    dsimp only at resumed
    split at resumed
    · obtain rfl := Option.some.inj resumed
      exact consistent_counterGone kept there
    · cases resumed
  | sampleGone key =>
    obtain rfl := Option.some.inj resumed
    exact consistent_sampleGone kept there
  | sampler now =>
    dsimp only at resumed
    split at resumed
    · next unwritten =>
      obtain rfl := Option.some.inj resumed
      exact kept.setCall there rfl rfl rfl rfl rfl (exclusive_unwritten unwritten rfl) rfl nofun
    · cases resumed
  | reading now =>
    dsimp only at resumed
    split at resumed
    · obtain rfl := Option.some.inj resumed
      exact kept.setCall there rfl rfl rfl rfl rfl
        (exclusive_shrink kept.exclusive there (fun writes => by cases writes) (fun _ => rfl)) rfl nofun
    · cases resumed
  | sampling now remaining =>
    cases remaining with
    | nil =>
      obtain rfl := Option.some.inj resumed
      exact kept.setCall there rfl rfl rfl rfl rfl
        (exclusive_shrink kept.exclusive there (fun writes => by cases writes) (fun holds => by cases holds)) rfl nofun
    | cons key rest => cases resumed
  | done => cases resumed

theorem consistent_step {exp : ℚ → ℚ} {action : Action} (kept : metrics.Consistent)
    (stepped : metrics.step exp action = some after) : after.Consistent := by
  cases action with
  | begin call =>
    cases call with
    | counterFor key | forget key | sampler now =>
      obtain rfl := Option.some.inj stepped
      exact consistent_begin kept rfl rfl
    | _ => cases stepped
  | count counter =>
    unfold step at stepped
    dsimp only at stepped
    split at stepped
    · obtain rfl := Option.some.inj stepped
      exact { kept with }
    · cases stepped
  | resume index clock =>
    obtain ⟨call, there, resumed⟩ := Option.bind_eq_some_iff.mp stepped
    exact consistent_resume kept there resumed
  | sampleNext index key =>
    obtain ⟨call, there, sampled⟩ := Option.bind_eq_some_iff.mp stepped
    unfold sampleNext at sampled
    cases call with
    | sampling now remaining =>
      dsimp only at sampled
      split at sampled
      · obtain ⟨counter, counted, rfl⟩ := Option.map_eq_some_iff.mp sampled
        exact consistent_sampleNext kept there counted
      · cases sampled
    | _ => cases sampled

/-- In every reachable state a sampled key has a counter, unless the key is just being forgotten. What was forgotten
has neither, and what is created afterwards starts from nothing. -/
theorem forgotten_stays_forgotten (exp : ℚ → ℚ) (actions : List Action) (metrics : RouteMetrics)
    (played : Steps.play (step exp) {} actions = some metrics) :
    (∀ key sample, metrics.samples.lookup key = some sample →
      (∃ counter, metrics.counters.lookup key = some counter) ∨ .counterGone key ∈ metrics.calls) ∧
    (∀ key, wasForgotten key metrics.history = true →
      metrics.counters.lookup key = none ∧ metrics.samples.lookup key = none) ∧
    ∀ event earlier, (event :: earlier) <:+ metrics.history → event.Fair earlier := by
  have initial : Consistent {} := by
    refine ⟨nofun, nofun, nofun, nofun, nofun, nofun, nofun, nofun, ?_⟩
    intro event earlier suffix
    cases List.suffix_nil.mp suffix
  have kept := Steps.play_kept consistent_step initial played
  exact ⟨kept.sampled, kept.forgotten, kept.fair⟩

/-- A route is counted and sampled, and the call that forgets it has removed its counter. -/
def beingForgotten : List Action :=
  [.begin (.counterFor "a"), .resume 0 5, .resume 0 5, .begin (.sampler 10), .resume 1 10, .resume 1 10,
    .sampleNext 1 "a", .resume 1 10, .begin (.forget "a"), .resume 2 20]

/-- Stands for the exponential, which a first sample has no use for. -/
def tangentExp (x : ℚ) : ℚ := 1 + x

def forgottenOnce : List Action := beingForgotten ++ [.resume 2 20, .resume 2 20]

theorem forgotten_stays_forgotten_once : ∃ metrics, Steps.play (step tangentExp) {} forgottenOnce = some metrics ∧
    metrics.counters.lookup ("a" : Text) = none ∧ metrics.samples.lookup ("a" : Text) = none := by
  have ended : (Steps.play (step tangentExp) {} forgottenOnce).any (fun metrics => wasForgotten "a" metrics.history) =
      true := rfl
  obtain ⟨metrics, played, forgot⟩ := (Option.any_eq_true _ _).mp ended
  exact ⟨metrics, played, (forgotten_stays_forgotten tangentExp _ metrics played).2.1 "a" forgot⟩

/-- Between the two removals the key is sampled and has no counter. -/
theorem sampled_without_counter : ∃ metrics, Steps.play (step tangentExp) {} beingForgotten = some metrics ∧
    (metrics.samples.lookup ("a" : Text)).isSome = true ∧ metrics.counters.lookup ("a" : Text) = none :=
  ⟨_, rfl, rfl, rfl⟩

end RouteMetrics

end MqBridge.Metrics
