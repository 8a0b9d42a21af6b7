import MqBridgeApp.Lib.JavaScript

/-!
# References to publishers

A consumer that forwards to a publisher names it by id and by name. The references are brought up to date
when the workspace is loaded and when a publisher is saved: by id, and by name when the id is gone. A name
is put into a map at its first publisher and removed at its second, so that a third one puts it back.
-/

namespace MqBridge.Workspace
open Text

/-- `String(record[key] || "").trim()` -/
def trimmedText (record : Record) (key : Text) : Text := jsTrim (Json.textOr [] (record.prop key))

def publishersById (publishers : List Record) : List (Text × Record) :=
  Assoc.insertAll [] ((publishers.map fun publisher => (trimmedText publisher "id", publisher)).filter
    fun entry => !entry.1.isEmpty)

/-- One turn of the loop that fills `publishersByName`. -/
def addPublisherByName (publishersByName : List (Text × Record)) (publisher : Record) : List (Text × Record) :=
  let name := trimmedText publisher "name"
  if name.isEmpty then publishersByName
  else if (publishersByName.lookup name).isSome then Assoc.erase publishersByName name
  else Assoc.insert publishersByName (name, publisher)

def publishersByName (publishers : List Record) : List (Text × Record) := publishers.foldl addPublisherByName []

structure Previous where
  publisherName : Option Text := none
  publisherId : Option Text := none

def boundPublisher (publishers : List Record) (previous : Previous) (output : Record) : Option Record :=
  let byId := publishersById publishers
  let byName := publishersByName publishers
  let outputPublisherId := trimmedText output "publisher_id"
  let outputPublisher := trimmedText output "publisher"
  let previousName := previous.publisherName.getD []
  let previousId := previous.publisherId.getD []
  (byId.lookup outputPublisherId).or <|
    (byName.lookup outputPublisher).or <|
      (if !previousId.isEmpty && outputPublisherId == previousId then byId.lookup previousId else none).or <|
        if !previousName.isEmpty && outputPublisher == jsTrim previousName then
          (byId.lookup (jsTrim previousId)).or (byName.lookup (jsTrim previousName))
        else none

def bindReference (output publisher : Record) : Record :=
  (output.assign "publisher" (.str (Json.textOr [] (publisher.prop "name")))).put "publisher_id" (publisher.prop "id")

/-- The output of a consumer that forwards to a publisher. -/
def publisherOutput (consumer : Record) : Option Record :=
  match consumer.prop "output" with
  | some (.obj output) => if Record.prop output "mode" = some (Json.str "publisher") then some output else none
  | _ => none

def syncConsumerReference (publishers : List Record) (previous : Previous) (consumer : Record) : Record :=
  match publisherOutput consumer with
  | none => consumer
  | some output =>
    match boundPublisher publishers previous output with
    | none => consumer
    | some publisher => consumer.assign "output" (.obj (bindReference output publisher))

def syncConsumerPublisherReferences (publishers consumers : List Record) (previous : Previous) : List Record :=
  consumers.map (syncConsumerReference publishers previous)

def namesakes (publishers : List Record) (name : Text) : List Record :=
  if name.isEmpty then [] else publishers.filter fun publisher => trimmedText publisher "name" == name

theorem namesakes_append (publishers : List Record) (publisher : Record) (name : Text) :
    namesakes (publishers ++ [publisher]) name = namesakes publishers name ++
      if !name.isEmpty && trimmedText publisher "name" == name then [publisher] else [] := by
  unfold namesakes
  cases name.isEmpty with
  | true => rfl
  | false => simp [List.filter_append, List.filter_cons]

/-- A name is in the map when an odd number of publishers bear it, and stands for the last of them. -/
theorem lookup_publishersByName (publishers : List Record) (name : Text) :
    (publishersByName publishers).lookup name =
      if (namesakes publishers name).length % 2 = 1 then (namesakes publishers name).getLast? else none := by
  induction publishers using List.reverseRecOn with
  | nil => simp [publishersByName, namesakes]
  | append_singleton publishers publisher ih =>
    rw [publishersByName, List.foldl_append, List.foldl_cons, List.foldl_nil, ← publishersByName, namesakes_append]
    unfold addPublisherByName
    dsimp only
    by_cases unnamed : (trimmedText publisher "name").isEmpty = true
    · have other : (!name.isEmpty && trimmedText publisher "name" == name) = false := by
        by_contra same
        simp only [Bool.not_eq_false, Bool.and_eq_true, Bool.not_eq_true', beq_iff_eq] at same
        rw [same.2, same.1] at unnamed
        cases unnamed
      rw [if_pos unnamed, other, ih]
      simp
    rw [if_neg unnamed]
    by_cases same : trimmedText publisher "name" = name
    · subst same
      have named : (!(trimmedText publisher "name").isEmpty && trimmedText publisher "name" == trimmedText publisher "name") = true := by
        simpa using unnamed
      rw [named, if_pos rfl, List.length_append, List.length_singleton, List.getLast?_concat, ih]
      generalize namesakes publishers (trimmedText publisher "name") = before at *
      by_cases odd : before.length % 2 = 1
      · obtain ⟨last, isLast⟩ : ∃ last, before.getLast? = some last := by
          cases before with
          | nil => cases odd
          | cons first rest => exact ⟨_, List.getLast?_eq_some_getLast (List.cons_ne_nil _ _)⟩
        rw [if_pos odd, isLast, Option.isSome_some, if_pos rfl, Assoc.lookup_erase, if_pos (beq_self_eq_true _), if_neg (by omega)]
      · rw [if_neg odd, Option.isSome_none, if_neg (by simp), Assoc.lookup_insert_self, if_pos (by omega)]
    · have other : (!name.isEmpty && trimmedText publisher "name" == name) = false := by simp [same]
      have different : (name == trimmedText publisher "name") = false := by simpa using fun h => same h.symm
      simp only [other, Bool.false_eq_true, if_false, List.append_nil, ← ih]
      split
      · rw [Assoc.lookup_erase, different, if_neg (by simp)]
      · rw [Assoc.lookup_insert, different, if_neg (by simp)]

def HasId (id : Text) (publisher : Record) : Prop := id ≠ [] ∧ trimmedText publisher "id" = id

theorem lookup_publishersById {publishers : List Record} {id : Text} {publisher : Record}
    (found : (publishersById publishers).lookup id = some publisher) : publisher ∈ publishers ∧ HasId id publisher := by
  have member := Assoc.mem_insertAll (Assoc.mem_of_lookup found)
  obtain ⟨inside, full⟩ := List.mem_filter.mp (member.resolve_left List.not_mem_nil)
  obtain ⟨_, there, same⟩ := List.mem_map.mp inside
  obtain ⟨rfl, rfl⟩ := Prod.mk.inj same
  exact ⟨there, by simpa using full, rfl⟩

theorem exists_publishersById {publishers : List Record} {id : Text} {publisher : Record} (member : publisher ∈ publishers)
    (named : HasId id publisher) : ∃ found, (publishersById publishers).lookup id = some found := by
  refine Assoc.mem_keys.mp (Assoc.mem_keys_insertAll.mpr (List.mem_map.mpr ⟨(id, publisher), ?_, rfl⟩))
  refine List.mem_filter.mpr ⟨List.mem_map.mpr ⟨publisher, member, by rw [named.2]⟩, ?_⟩
  simpa using named.1

section
variable {publishers : List Record} {previous : Previous} {output : Record}

/-- Some publisher has the id that the reference gives. -/
def Known (publishers : List Record) (output : Record) : Prop :=
  ∃ publisher ∈ publishers, HasId (trimmedText output "publisher_id") publisher

/-- The reference gives the name that the saved publisher had before, and that publisher is still there. -/
def NamesPrevious (publishers : List Record) (previous : Previous) (output : Record) : Prop :=
  (∃ name, previous.publisherName = some name ∧ name ≠ [] ∧ trimmedText output "publisher" = jsTrim name) ∧
    ∃ publisher ∈ publishers, HasId (jsTrim (previous.publisherId.getD [])) publisher

theorem boundPublisher_known (known : Known publishers output) :
    ∃ publisher ∈ publishers, HasId (trimmedText output "publisher_id") publisher ∧
      boundPublisher publishers previous output = some publisher := by
  obtain ⟨publisher, member, named⟩ := known
  obtain ⟨found, isFound⟩ := exists_publishersById member named
  obtain ⟨inside, same⟩ := lookup_publishersById isFound
  exact ⟨found, inside, same, by simp [boundPublisher, isFound]⟩

/-- Without a known id, the name decides, and after it the publisher that was saved. -/
theorem boundPublisher_unknown (unknown : ¬ Known publishers output) :
    (∃ publisher, (publishersByName publishers).lookup (trimmedText output "publisher") = some publisher ∧
      boundPublisher publishers previous output = some publisher) ∨
    ((publishersByName publishers).lookup (trimmedText output "publisher") = none ∧
      ((NamesPrevious publishers previous output ∧ ∃ publisher ∈ publishers,
          HasId (jsTrim (previous.publisherId.getD [])) publisher ∧
          boundPublisher publishers previous output = some publisher) ∨
        (¬ NamesPrevious publishers previous output ∧ boundPublisher publishers previous output = none))) := by
  have byId : (publishersById publishers).lookup (trimmedText output "publisher_id") = none := by
    cases found : (publishersById publishers).lookup (trimmedText output "publisher_id") with
    | none => rfl
    | some publisher =>
      obtain ⟨member, named⟩ := lookup_publishersById found
      exact absurd ⟨publisher, member, named⟩ unknown
  have byPreviousId : (if !(previous.publisherId.getD []).isEmpty && trimmedText output "publisher_id" == previous.publisherId.getD []
      then (publishersById publishers).lookup (previous.publisherId.getD []) else none) = none := by
    split
    · next same =>
      simp only [Bool.and_eq_true, beq_iff_eq] at same
      rw [← same.2, byId]
    · rfl
  have reduced : boundPublisher publishers previous output =
      ((publishersByName publishers).lookup (trimmedText output "publisher")).or
        (if !(previous.publisherName.getD []).isEmpty && trimmedText output "publisher" == jsTrim (previous.publisherName.getD []) then
          ((publishersById publishers).lookup (jsTrim (previous.publisherId.getD []))).or
            ((publishersByName publishers).lookup (jsTrim (previous.publisherName.getD [])))
        else none) := by
    unfold boundPublisher
    dsimp only
    rw [byId, byPreviousId, Option.none_or, Option.none_or]
  rw [reduced]
  cases byName : (publishersByName publishers).lookup (trimmedText output "publisher") with
  | some publisher => exact .inl ⟨publisher, rfl, rfl⟩
  | none =>
    refine .inr ⟨rfl, ?_⟩
    rw [Option.none_or]
    split
    · next same =>
      simp only [Bool.and_eq_true, Bool.not_eq_true', List.isEmpty_eq_false_iff, beq_iff_eq] at same
      rw [← same.2, byName, Option.or_none]
      have given : ∃ name, previous.publisherName = some name ∧ name ≠ [] ∧ trimmedText output "publisher" = jsTrim name := by
        cases given : previous.publisherName with
        | none => simp [given] at same
        | some name => exact ⟨name, rfl, by simpa [given] using same⟩
      cases found : (publishersById publishers).lookup (jsTrim (previous.publisherId.getD [])) with
      | some publisher =>
        obtain ⟨member, named⟩ := lookup_publishersById found
        exact .inl ⟨⟨given, publisher, member, named⟩, publisher, member, named, rfl⟩
      | none =>
        refine .inr ⟨fun names => ?_, rfl⟩
        obtain ⟨publisher, member, named⟩ := names.2
        obtain ⟨_, isFound⟩ := exists_publishersById member named
        rw [found] at isFound
        cases isFound
    · next other =>
      refine .inr ⟨fun names => other ?_, rfl⟩
      obtain ⟨name, given, full, same⟩ := names.1
      simp [given, full, same]

/-! ### The law -/

/-- The reference is to a publisher, by its name and its id. -/
def RefersTo (output publisher : Record) : Prop :=
  output.prop "publisher" = some (.str (Json.textOr [] (publisher.prop "name"))) ∧
    output.prop "publisher_id" = publisher.prop "id"

theorem refersTo_bindReference (output publisher : Record) : RefersTo (bindReference output publisher) publisher := by
  constructor
  · rw [bindReference, Record.prop, Record.lookup_put, if_neg (by decide), Record.lookup_assign, if_pos (beq_self_eq_true _)]
  · rw [bindReference, Record.prop, Record.lookup_put, if_pos (beq_self_eq_true _)]

theorem same_bindReference_iff {publisher : Record} : Record.Same (bindReference output publisher) output ↔ RefersTo output publisher := by
  constructor
  · intro same
    obtain ⟨name, id⟩ := refersTo_bindReference output publisher
    exact ⟨(same _).symm.trans name, (same _).symm.trans id⟩
  · rintro ⟨name, id⟩ key
    rw [bindReference, Record.lookup_put, Record.lookup_assign]
    by_cases isId : key = "publisher_id"
    · rw [isId, if_pos (beq_self_eq_true _), ← id]
    by_cases isName : key = "publisher"
    · rw [if_neg (by simpa using isId), isName, if_pos (beq_self_eq_true _), ← name]
    · rw [if_neg (by simpa using isId), if_neg (by simpa using isName)]

/-- What becomes of a reference: it is bound to its id when that exists, and otherwise to the only
publisher of its name, when there is only one. With several, it is left alone. With none, only the saved
publisher may take it. -/
structure Lawful (publishers : List Record) (previous : Previous) (output output' : Record) : Prop where
  known : Known publishers output →
    ∃ publisher ∈ publishers, HasId (trimmedText output "publisher_id") publisher ∧ RefersTo output' publisher
  only : ∀ publisher, ¬ Known publishers output → namesakes publishers (trimmedText output "publisher") = [publisher] →
    RefersTo output' publisher
  several : ¬ Known publishers output → 2 ≤ (namesakes publishers (trimmedText output "publisher")).length →
    Record.Same output' output
  unnamed : ¬ Known publishers output → namesakes publishers (trimmedText output "publisher") = [] → ¬ NamesPrevious publishers previous output →
    Record.Same output' output

/-- The name of an unknown reference is not borne by an odd number of publishers from three on, unless the
reference is to the last of them as it stands; and it is not an ambiguous name that the saved publisher had. -/
def Settled (publishers : List Record) (previous : Previous) (output : Record) : Prop :=
  let named := namesakes publishers (trimmedText output "publisher")
  Known publishers output ∨ named.length < 2 ∨
    if named.length % 2 = 1 then ∃ publisher, named.getLast? = some publisher ∧ RefersTo output publisher
    else ¬ NamesPrevious publishers previous output

def syncOutput (publishers : List Record) (previous : Previous) (output : Record) : Record :=
  match boundPublisher publishers previous output with
  | none => output
  | some publisher => bindReference output publisher

theorem known_of_refersTo {publisher : Record} {id : Text} (member : publisher ∈ publishers) (named : HasId id publisher)
    (refers : RefersTo output publisher) : Known publishers output := by
  have same : trimmedText output "publisher_id" = trimmedText publisher "id" := by rw [trimmedText, refers.2, trimmedText]
  exact ⟨publisher, member, by rw [same, named.2]; exact named.1, same.symm⟩

theorem settled_of_lawful (lawful : Lawful publishers previous output (syncOutput publishers previous output)) :
    Settled publishers previous output := by
  by_cases known : Known publishers output
  · exact .inl known
  by_cases few : (namesakes publishers (trimmedText output "publisher")).length < 2
  · exact .inr (.inl few)
  refine .inr (.inr ?_)
  have alone := lawful.several known (by omega)
  have byName := lookup_publishersByName publishers (trimmedText output "publisher")
  unfold syncOutput at alone
  rcases @boundPublisher_unknown _ previous _ known with ⟨publisher, found, bound⟩ | ⟨missing, bound⟩
  · rw [bound] at alone
    rw [found] at byName
    split_ifs at byName ⊢ with odd
    exact ⟨publisher, byName.symm, same_bindReference_iff.mp alone⟩
  · have even : ¬ (namesakes publishers (trimmedText output "publisher")).length % 2 = 1 := by
      intro odd
      rw [missing, if_pos odd] at byName
      rw [List.getLast?_eq_none_iff.mp byName.symm] at few
      exact few (by decide)
    rw [if_neg even]
    rcases bound with ⟨-, publisher, member, named, bound⟩ | ⟨other, -⟩
    · rw [bound] at alone
      exact absurd (known_of_refersTo member named (same_bindReference_iff.mp alone)) known
    · exact other

theorem lawful_of_settled (settled : Settled publishers previous output) :
    Lawful publishers previous output (syncOutput publishers previous output) := by
  have byName := lookup_publishersByName publishers (trimmedText output "publisher")
  refine ⟨fun known => ?_, fun publisher unknown only => ?_, fun unknown several => ?_, fun unknown unnamed other => ?_⟩
  · obtain ⟨publisher, member, named, bound⟩ := @boundPublisher_known _ previous _ known
    refine ⟨publisher, member, named, ?_⟩
    rw [syncOutput, bound]
    exact refersTo_bindReference output publisher
  · rw [only] at byName
    rcases @boundPublisher_unknown _ previous _ unknown with ⟨found, isFound, bound⟩ | ⟨missing, -⟩
    · obtain rfl : publisher = found := Option.some.inj (byName.symm.trans isFound)
      rw [syncOutput, bound]
      exact refersTo_bindReference output publisher
    · rw [missing] at byName
      cases byName
  · have rest := (settled.resolve_left unknown).resolve_left (by omega)
    rcases @boundPublisher_unknown _ previous _ unknown with ⟨publisher, found, bound⟩ | ⟨missing, bound⟩
    · rw [found] at byName
      split_ifs at byName rest with odd
      obtain ⟨last, isLast, refers⟩ := rest
      obtain rfl : publisher = last := Option.some.inj (byName.trans isLast)
      rw [syncOutput, bound]
      exact same_bindReference_iff.mpr refers
    · have even : ¬ (namesakes publishers (trimmedText output "publisher")).length % 2 = 1 := by
        intro odd
        rw [missing, if_pos odd] at byName
        rw [List.getLast?_eq_none_iff.mp byName.symm] at several
        exact absurd several (by decide)
      rw [if_neg even] at rest
      rcases bound with ⟨names, -⟩ | ⟨-, bound⟩
      · exact absurd names rest
      · rw [syncOutput, bound]
        exact fun _ => rfl
  · rcases @boundPublisher_unknown _ previous _ unknown with ⟨publisher, found, -⟩ | ⟨-, ⟨names, -⟩ | ⟨-, bound⟩⟩
    · rw [found, unnamed] at byName
      cases byName
    · exact absurd names other
    · rw [syncOutput, bound]
      exact fun _ => rfl

theorem publisherOutput_sync {consumer : Record} (forwards : publisherOutput consumer = some output) :
    publisherOutput (syncConsumerReference publishers previous consumer) = some (syncOutput publishers previous output) := by
  unfold syncConsumerReference syncOutput
  rw [forwards]
  dsimp only
  cases boundPublisher publishers previous output with
  | none => exact forwards
  | some publisher =>
    have mode : output.prop "mode" = some (.str "publisher") := by
      unfold publisherOutput at forwards
      split at forwards
      · split at forwards
        · next isPublisher => rwa [← Option.some.inj forwards]
        · cases forwards
      · cases forwards
    have kept : (bindReference output publisher).prop "mode" = some (.str "publisher") := by
      rw [bindReference, Record.prop, Record.lookup_put, if_neg (by decide), Record.lookup_assign, if_neg (by decide)]
      exact mode
    unfold publisherOutput
    rw [Record.prop, Record.lookup_assign, if_pos (beq_self_eq_true _)]
    dsimp only
    rw [if_pos kept]

/-- What becomes of a consumer: one that does not forward is left as it is. -/
def LawfulConsumer (publishers : List Record) (previous : Previous) (consumer consumer' : Record) : Prop :=
  match publisherOutput consumer with
  | none => consumer' = consumer
  | some output => ∃ output', publisherOutput consumer' = some output' ∧ Lawful publishers previous output output'

/-- The references are kept lawfully just when each of them is settled. -/
theorem syncConsumerPublisherReferences_lawful_iff (publishers consumers : List Record) (previous : Previous) :
    List.Forall₂ (LawfulConsumer publishers previous) consumers (syncConsumerPublisherReferences publishers consumers previous) ↔
      ∀ consumer ∈ consumers, ∀ output, publisherOutput consumer = some output → Settled publishers previous output := by
  unfold syncConsumerPublisherReferences
  rw [List.forall₂_map_right_iff, List.forall₂_same]
  refine forall₂_congr fun consumer _ => ?_
  unfold LawfulConsumer
  cases forwards : publisherOutput consumer with
  | none => simp [syncConsumerReference, forwards]
  | some output =>
    constructor
    · rintro ⟨output', synced, lawful⟩ other same
      rw [publisherOutput_sync forwards] at synced
      obtain rfl := Option.some.inj same
      obtain rfl := Option.some.inj synced
      exact settled_of_lawful lawful
    · exact fun settled => ⟨_, publisherOutput_sync forwards, lawful_of_settled (settled output rfl)⟩

end

def orderPublishers : List Record :=
  ["p1", "p2", "p3"].map fun id : Text => [("id", .str id), ("name", .str "orders")]

def orderConsumer : Record :=
  [("id", .str "c1"),
    ("output", .obj [("mode", .str "publisher"), ("publisher", .str "orders"), ("publisher_id", .str "gone")])]

/-- The reference is bound to the third publisher, as if it were the only one. -/
theorem third_namesake_bound :
    ¬ List.Forall₂ (LawfulConsumer orderPublishers {}) [orderConsumer]
      (syncConsumerPublisherReferences orderPublishers [orderConsumer] {}) := by
  intro all
  obtain ⟨output, synced, lawful⟩ := (List.forall₂_cons.mp all).1
  have unknown : ¬ Known orderPublishers
      [("mode", .str "publisher"), ("publisher", .str "orders"), ("publisher_id", .str "gone")] := by
    unfold Known HasId
    decide
  have alone := lawful.several unknown (by decide) "publisher_id"
  have third : (publisherOutput (syncConsumerReference orderPublishers {} orderConsumer)).bind (fun output => output.prop "publisher_id") =
      some (.str "p3") := by decide
  rw [synced, Option.bind_some, Record.prop, alone] at third
  exact absurd third (by decide)

end MqBridge.Workspace
