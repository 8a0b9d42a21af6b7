import MqBridgeApp.Config.Load

/-!
# Lifting bare routes

Entries move from the top level into `routes`. No entry is lost or doubled, the settings of the
application stay, and a lifted configuration is not lifted again.
-/

namespace MqBridge.Config

/-- The entries of a configuration object, where no key is given twice. -/
structure RawConfig where
  entries : List (Text × Json)
  distinct : (entries.map Prod.fst).Nodup

theorem mem_appLevelFields {key : Text} : key ∈ appLevelFields ↔ key ∈ settingNames := by
  have all : appLevelFields ⊆ settingNames := by decide
  have every : settingNames ⊆ appLevelFields := by decide
  exact ⟨fun member => all member, fun member => every member⟩

theorem isAppField_iff {entry : Text × Json} : isAppField entry = true ↔ entry.1 ∈ settingNames := by
  rw [isAppField, decide_eq_true_iff, mem_appLevelFields]

/-- An object that holds an input, under a name that is not a setting's. -/
def IsRouteEntry (entry : Text × Json) : Prop :=
  entry.1 ∉ settingNames ∧ ∃ route, entry.2 = .obj route ∧ hasKey "input" route = true

theorem isNamedRoute_iff {entry : Text × Json} : isNamedRoute entry = true ↔ IsRouteEntry entry := by
  rw [isNamedRoute, Bool.and_eq_true, Bool.not_eq_true', ← Bool.not_eq_true, isAppField_iff]
  apply and_congr_right
  intro
  cases entry.2 <;> simp

/-- Removes keys from a map one after another, and collects what they held. -/
def takeKeys : List Text → List (Text × Json) → List (Text × Json) × List (Text × Json)
  | [], map => ([], map)
  | key :: keys, map =>
    let later := takeKeys keys (Assoc.erase map key)
    (((map.lookup key).map fun value => (key, value)).toList ++ later.1, later.2)

theorem takeKeys_snd (keys : List Text) (map : List (Text × Json)) :
    (takeKeys keys map).2 = map.filter fun entry => decide (entry.1 ∉ keys) := by
  induction keys generalizing map with
  | nil => simp [takeKeys]
  | cons key keys ih =>
    show (takeKeys keys (Assoc.erase map key)).2 = _
    rw [ih, Assoc.erase, List.filter_filter]
    apply List.filter_congr
    intro entry _
    rw [Bool.eq_iff_iff]
    simp [and_comm]

theorem takeKeys_fst {keys : List Text} (apart : keys.Nodup) (map : List (Text × Json)) :
    (takeKeys keys map).1 = keys.filterMap fun key => (map.lookup key).map fun value => (key, value) := by
  induction keys generalizing map with
  | nil => rfl
  | cons key keys ih =>
    obtain ⟨first, others⟩ := List.nodup_cons.mp apart
    have later : (takeKeys keys (Assoc.erase map key)).1 =
        keys.filterMap fun other => (map.lookup other).map fun value => (other, value) := by
      rw [ih others]
      apply List.filterMap_congr
      intro other member
      have different : other ≠ key := by
        rintro rfl
        exact first member
      rw [Assoc.lookup_erase, if_neg (by simpa using different)]
    show _ ++ (takeKeys keys (Assoc.erase map key)).1 = _
    rw [List.filterMap_cons, later]
    cases map.lookup key <;> rfl

/-- Taking the keys of some entries splits a map into these and the others. -/
theorem takeKeys_filter {entries : List (Text × Json)} (distinct : (entries.map Prod.fst).Nodup)
    (picked : Text × Json → Bool) :
    takeKeys ((entries.filter picked).map Prod.fst) entries =
      (entries.filter picked, entries.filter fun entry => !picked entry) := by
  have apart : ((entries.filter picked).map Prod.fst).Nodup := distinct.sublist (List.filter_sublist.map _)
  apply Prod.ext
  · rw [takeKeys_fst apart, List.filterMap_map]
    have held : ∀ entry ∈ entries.filter picked,
        ((entries.lookup entry.1).map fun value => (entry.1, value)) = some entry := by
      intro entry member
      rw [Assoc.lookup_of_mem distinct (List.mem_filter.mp member).1, Option.map_some]
    exact (List.filterMap_congr held).trans List.filterMap_some
  · rw [takeKeys_snd]
    apply List.filter_congr
    intro entry member
    have taken : entry.1 ∈ (entries.filter picked).map Prod.fst ↔ picked entry = true := by
      constructor
      · intro found
        obtain ⟨other, kept, same⟩ := List.mem_map.mp found
        obtain ⟨inside, passes⟩ := List.mem_filter.mp kept
        rwa [List.inj_on_of_nodup_map distinct inside member same] at passes
      · exact fun passes => List.mem_map_of_mem (List.mem_filter.mpr ⟨member, passes⟩)
    simp [taken]

/-- Lifting as it changes the map: keys are taken out, and go under `routes`. -/
def liftInPlace (map : List (Text × Json)) : Option Json :=
  if hasKey "routes" map then none
  else if hasKey "input" map then
    let parts := takeKeys ((map.filter fun entry => !isAppField entry).map Prod.fst) map
    some (withRoutes parts.2 (.obj [(singleRouteName, .obj parts.1)]))
  else
    let keys := (map.filter isNamedRoute).map Prod.fst
    if keys.isEmpty then none
    else
      let parts := takeKeys keys map
      some (withRoutes parts.2 (.obj parts.1))

theorem liftBareRoutes_inPlace (raw : RawConfig) : liftBareRoutes (.obj raw.entries) = liftInPlace raw.entries := by
  simp only [liftBareRoutes, liftInPlace, takeKeys_filter raw.distinct, Bool.not_not, List.isEmpty_map]

/-- Where the entries of a configuration are after lifting: `kept` at the top level, and `moved` in the
single route of a bare one, else each as a route. -/
structure Lifting (raw : RawConfig) (lifted : Json) (kept moved : List (Text × Json)) : Prop where
  placed : lifted = withRoutes kept
    (if hasKey "input" raw.entries then .obj [(singleRouteName, .obj moved)] else .obj moved)
  all : (kept ++ moved).Perm raw.entries
  once : ((kept ++ moved).map Prod.fst).Nodup
  fresh : ("routes" : Text) ∉ kept.map Prod.fst
  settings : ∀ entry ∈ raw.entries, entry.1 ∈ settingNames → entry ∈ kept
  bare : hasKey "input" raw.entries = true → ∀ entry ∈ raw.entries, entry ∈ moved ↔ entry.1 ∉ settingNames
  named : hasKey "input" raw.entries = false → ∀ entry ∈ raw.entries, entry ∈ moved ↔ IsRouteEntry entry
  again : liftBareRoutes lifted = none

theorem hasKey_iff {key : Text} {entries : List (Text × Json)} :
    hasKey key entries = true ↔ key ∈ entries.map Prod.fst := by
  rw [hasKey, Option.isSome_iff_exists, Assoc.mem_keys]

theorem liftBareRoutes_withRoutes (kept : List (Text × Json)) (routes : Json) :
    liftBareRoutes (withRoutes kept routes) = none := by
  have present : hasKey "routes" (kept ++ [(("routes" : Text), routes)]) = true := by
    rw [hasKey_iff, List.map_append]
    exact List.mem_append_right _ List.mem_cons_self
  simp [withRoutes, liftBareRoutes, present]

/-- Moving the entries that a filter picks is a lifting when it picks no setting and what the form asks for. -/
theorem lifting_of_picked {raw : RawConfig} (picked : Text × Json → Bool)
    (absent : hasKey "routes" raw.entries = false) (apart : ∀ entry, picked entry = true → entry.1 ∉ settingNames)
    (bare : hasKey "input" raw.entries = true → ∀ entry, picked entry = true ↔ entry.1 ∉ settingNames)
    (named : hasKey "input" raw.entries = false → ∀ entry, picked entry = true ↔ IsRouteEntry entry) :
    Lifting raw
      (withRoutes (raw.entries.filter fun entry => !picked entry)
        (if hasKey "input" raw.entries then .obj [(singleRouteName, .obj (raw.entries.filter picked))]
          else .obj (raw.entries.filter picked)))
      (raw.entries.filter fun entry => !picked entry) (raw.entries.filter picked) := by
  have parts : ((raw.entries.filter fun entry => !picked entry) ++ raw.entries.filter picked).Perm raw.entries := by
    apply List.perm_append_comm.trans
    simpa using List.filter_append_perm picked raw.entries
  have taken : ∀ entry ∈ raw.entries, entry ∈ raw.entries.filter picked ↔ picked entry = true :=
    fun entry member => List.mem_filter.trans (and_iff_right member)
  exact {
    placed := rfl
    all := parts
    once := (parts.map Prod.fst).nodup_iff.mpr raw.distinct
    fresh := by
      intro member
      have given := (List.filter_sublist.map Prod.fst).subset member
      rw [← hasKey_iff, absent] at given
      cases given
    settings := by
      intro entry member setting
      apply List.mem_filter.mpr
      refine ⟨member, ?_⟩
      rw [Bool.not_eq_true', ← Bool.not_eq_true]
      exact fun picks => apart entry picks setting
    bare := fun form entry member => (taken entry member).trans (bare form entry)
    named := fun form entry member => (taken entry member).trans (named form entry)
    again := liftBareRoutes_withRoutes _ _ }

theorem liftBareRoutes_bare {raw : RawConfig} (absent : hasKey "routes" raw.entries = false)
    (form : hasKey "input" raw.entries = true) :
    ∃ lifted kept moved, liftBareRoutes (.obj raw.entries) = some lifted ∧ Lifting raw lifted kept moved := by
  have notSetting : ∀ entry : Text × Json, (!isAppField entry) = true ↔ entry.1 ∉ settingNames := by
    intro entry
    rw [Bool.not_eq_true', ← Bool.not_eq_true, isAppField_iff]
  refine ⟨_, _, _, ?_, lifting_of_picked (fun entry => !isAppField entry) absent
    (fun entry => (notSetting entry).mp) (fun _ => notSetting) (fun other => absurd (form.symm.trans other) (by decide))⟩
  simp [liftBareRoutes, absent, form]

theorem liftBareRoutes_named {raw : RawConfig} (absent : hasKey "routes" raw.entries = false)
    (form : hasKey "input" raw.entries = false) {entry : Text × Json} (member : entry ∈ raw.entries)
    (route : IsRouteEntry entry) :
    ∃ lifted kept moved, liftBareRoutes (.obj raw.entries) = some lifted ∧ Lifting raw lifted kept moved := by
  refine ⟨_, _, _, ?_, lifting_of_picked isNamedRoute absent
    (fun entry picks => (isNamedRoute_iff.mp picks).1)
    (fun other => absurd (form.symm.trans other) (by decide)) (fun _ _ => isNamedRoute_iff)⟩
  have some : (raw.entries.filter isNamedRoute).isEmpty = false := by
    rw [List.isEmpty_eq_false_iff_exists_mem]
    exact ⟨entry, List.mem_filter.mpr ⟨member, isNamedRoute_iff.mpr route⟩⟩
  simp [liftBareRoutes, absent, form, some]

theorem liftBareRoutes_nothing {raw : RawConfig} (form : hasKey "input" raw.entries = false)
    (nothing : ∀ entry ∈ raw.entries, ¬IsRouteEntry entry) : liftBareRoutes (.obj raw.entries) = none := by
  have empty : raw.entries.filter isNamedRoute = [] := by
    apply List.filter_eq_nil_iff.mpr
    intro entry member picks
    exact nothing entry member (isNamedRoute_iff.mp picks)
  simp [liftBareRoutes, form, empty]

/-- Lifting keeps every entry in one place, the settings at the top level, and is done once. There is
nothing to do where `routes` is given, or where there is no input and no route. -/
theorem liftBareRoutes_conserves (raw : RawConfig) :
    (liftBareRoutes (.obj raw.entries) = none ↔
      hasKey "routes" raw.entries = true ∨
        hasKey "input" raw.entries = false ∧ ∀ entry ∈ raw.entries, ¬IsRouteEntry entry) ∧
      ∀ lifted, liftBareRoutes (.obj raw.entries) = some lifted → ∃ kept moved, Lifting raw lifted kept moved := by
  cases present : hasKey "routes" raw.entries with
  | true =>
    have stays : liftBareRoutes (.obj raw.entries) = none := by simp [liftBareRoutes, present]
    rw [stays]
    exact ⟨by simp, nofun⟩
  | false =>
    by_cases nothing : hasKey "input" raw.entries = false ∧ ∀ entry ∈ raw.entries, ¬IsRouteEntry entry
    · rw [liftBareRoutes_nothing nothing.1 nothing.2]
      exact ⟨by simp only [true_iff]; exact Or.inr nothing, nofun⟩
    · have lifts : ∃ lifted kept moved,
          liftBareRoutes (.obj raw.entries) = some lifted ∧ Lifting raw lifted kept moved := by
        cases form : hasKey "input" raw.entries with
        | true => exact liftBareRoutes_bare present form
        | false =>
          have something : ∃ entry ∈ raw.entries, IsRouteEntry entry := by
            by_contra none
            exact nothing ⟨form, fun entry member route => none ⟨entry, member, route⟩⟩
          obtain ⟨entry, member, route⟩ := something
          exact liftBareRoutes_named present form member route
      obtain ⟨lifted, kept, moved, done, lifting⟩ := lifts
      rw [done]
      refine ⟨iff_of_false (by simp) ?_, ?_⟩
      · rintro (given | empty)
        · cases given
        · exact nothing empty
      · intro other same
        obtain rfl := Option.some.inj same
        exact ⟨kept, moved, lifting⟩

end MqBridge.Config
