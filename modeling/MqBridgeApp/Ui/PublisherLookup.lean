import MqBridgeApp.Config.EntityIds
import MqBridgeApp.Ui.ConsumerKeys

/-!
# The publisher behind a reference

A running route, normalisation and a publish request each look a publisher up by its id, and two of
them take names for ids.
-/

namespace MqBridge.Ui
open Text Config

structure PublishRequest where
  name : Text := []
  publisherId : Option Text := none
  endpoint : Option Endpoint := none

def publisherLookupKey (request : PublishRequest) : Option Text :=
  ((request.publisherId.map trim).filter fun id => !id.isEmpty).or
    (if (trim request.name).isEmpty then none else some (trim request.name))

def publishEndpoint (publishers : List PublisherClient) (request : PublishRequest) : Option Endpoint :=
  match request.endpoint with
  | some endpoint => some endpoint
  | none =>
    (publishers.find? fun publisher =>
      (publisherLookupKey request).any fun lookup => publisher.id == lookup || publisher.name == lookup).map (·.endpoint)

/-- Every path from a consumer leads to `publisher`. -/
structure ResolversAgree (typeName : EndpointType → Text) (config : AppConfig) (consumer : ConsumerConfig)
    (publisher : PublisherClient) : Prop where
  resolved : ∃ endpoint, resolveConsumerOutput typeName consumer config.publishers = .ok (.publisher endpoint) ∧
    endpoint = publisher.endpoint
  normalized : normalizePublisherOutput (nameOfId config.publishers) (idOfName config.publishers) consumer.output =
    .publisher publisher.name (some publisher.id)
  published : ∀ name, publishEndpoint config.publishers { name, publisherId := some publisher.id } =
    some publisher.endpoint

/-- Before a publisher with another endpoint that is hit, there is one with `endpoint`. -/
def ComesFirst (hit : PublisherClient → Bool) (publishers : List PublisherClient) (endpoint : Endpoint) : Prop :=
  ∃ before publisher after, publishers = before ++ publisher :: after ∧ hit publisher = true ∧
    publisher.endpoint = endpoint ∧ ∀ other ∈ before, hit other = true → other.endpoint = endpoint

theorem find?_endpoint_iff (hit : PublisherClient → Bool) (publishers : List PublisherClient) (endpoint : Endpoint) :
    (publishers.find? hit).map (·.endpoint) = some endpoint ↔ ComesFirst hit publishers endpoint := by
  constructor
  · intro found
    obtain ⟨publisher, first, same⟩ := Option.map_eq_some_iff.mp found
    obtain ⟨isHit, before, after, split, misses⟩ := List.find?_eq_some_iff_append.mp first
    refine ⟨before, publisher, after, split, isHit, same, fun other member isHit' => ?_⟩
    have missed := misses other member
    rw [isHit'] at missed
    cases missed
  · rintro ⟨before, publisher, after, rfl, isHit, same, others⟩
    induction before with
    | nil => rw [List.nil_append, List.find?_cons_of_pos isHit, Option.map_some, same]
    | cons first before ih =>
      by_cases firstHit : hit first = true
      · rw [List.cons_append, List.find?_cons_of_pos firstHit, Option.map_some, others first List.mem_cons_self firstHit]
      · rw [List.cons_append, List.find?_cons_of_neg firstHit]
        exact ih fun other member => others other (List.mem_cons_of_mem _ member)

/-- A route's lookup hits a publisher with the id or, if it has one, the name. -/
def routeHits (publisher : PublisherClient) (other : PublisherClient) : Bool :=
  trim publisher.id == other.id || (!(trim publisher.name).isEmpty && other.name == trim publisher.name)

/-- A publish request hits a publisher whose id or name is the id. -/
def publishHits (publisher : PublisherClient) (other : PublisherClient) : Bool :=
  other.id == trim publisher.id || other.name == trim publisher.id

theorem resolve_publisher_iff {typeName : EndpointType → Text} {publishers : List PublisherClient}
    {consumer : ConsumerConfig} {publisher : PublisherClient} (full : trim publisher.id ≠ [])
    (output : consumer.output = .publisher publisher.name (some publisher.id)) :
    (∃ endpoint, resolveConsumerOutput typeName consumer publishers = .ok (.publisher endpoint) ∧
        endpoint = publisher.endpoint) ↔ ComesFirst (routeHits publisher) publishers publisher.endpoint := by
  have id_ : ((some publisher.id).map trim).filter (fun id => !id.isEmpty) = some (trim publisher.id) := by
    simpa using full
  have looked : findPublisher publishers publisher.name (some publisher.id) = publishers.find? (routeHits publisher) := by
    rw [findPublisher, id_]
    rfl
  rw [← find?_endpoint_iff, resolveConsumerOutput, output]
  simp only [id_, Option.isNone_some, Bool.and_false, Bool.false_eq_true, if_false, looked]
  cases publishers.find? (routeHits publisher) with
  | none => simp
  | some found => simp

theorem publish_publisher_iff {publishers : List PublisherClient} {publisher : PublisherClient}
    (full : trim publisher.id ≠ []) :
    (∀ name, publishEndpoint publishers { name, publisherId := some publisher.id } = some publisher.endpoint) ↔
      ComesFirst (publishHits publisher) publishers publisher.endpoint := by
  have key : ∀ name, publisherLookupKey { name, publisherId := some publisher.id } = some (trim publisher.id) := by
    intro name
    have id_ : ((some publisher.id).map trim).filter (fun id => !id.isEmpty) = some (trim publisher.id) := by
      simpa using full
    rw [publisherLookupKey, id_, Option.some_or]
  have looked : ∀ name, publishEndpoint publishers { name, publisherId := some publisher.id } =
      (publishers.find? (publishHits publisher)).map (·.endpoint) := by
    intro name
    rw [publishEndpoint, key]
    rfl
  simp only [looked, find?_endpoint_iff, forall_const]

/-- In a migrated configuration, all paths from a consumer lead to the publisher with its output's id
exactly when that publisher's endpoint comes first for each of the two lookups that take names. -/
theorem resolversAgree_iff (typeName : EndpointType → Text) (ids : IdSupply) (config : AppConfig)
    (fresh : ids.Fresh config.entityIds) (consumer : ConsumerConfig)
    (present : consumer ∈ (config.migrateLegacyRoutes ids).consumers) (publisher : PublisherClient)
    (listed : publisher ∈ (config.migrateLegacyRoutes ids).publishers) (name : Text)
    (output : consumer.output = .publisher name (some publisher.id)) :
    ResolversAgree typeName (config.migrateLegacyRoutes ids) consumer publisher ↔
      ComesFirst (routeHits publisher) (config.migrateLegacyRoutes ids).publishers publisher.endpoint ∧
        ComesFirst (publishHits publisher) (config.migrateLegacyRoutes ids).publishers publisher.endpoint := by
  have resolved := resolved_migrate fresh
  have full := resolved.publisherIdsFull publisher listed
  have named : name = publisher.name := by
    have reference := resolved.outputs consumer present
    rw [output] at reference
    obtain ⟨other, member, sameId, sameName⟩ := reference
    have found := nameOfId_of_mem resolved.publisherIds member
    rw [sameId, nameOfId_of_mem resolved.publisherIds listed] at found
    rw [← sameName, Option.some.inj found]
  rw [named] at output
  have normalized : normalizePublisherOutput (nameOfId (config.migrateLegacyRoutes ids).publishers)
      (idOfName (config.migrateLegacyRoutes ids).publishers) consumer.output =
        .publisher publisher.name (some publisher.id) := by
    rw [output, normalizePublisherOutput_publisher, Option.bind_some, nameOfId_of_mem resolved.publisherIds listed]
  constructor
  · intro agree
    exact ⟨(resolve_publisher_iff full output).mp agree.resolved, (publish_publisher_iff full).mp agree.published⟩
  · rintro ⟨route, publish⟩
    exact ⟨(resolve_publisher_iff full output).mpr route, normalized, (publish_publisher_iff full).mpr publish⟩

theorem paired_migrated : pairedConfig.migrateLegacyRoutes tallyIds = pairedConfig := rfl

/-- The second of two consumers and its publisher. -/
theorem resolversAgree_iff_paired :
    ResolversAgree EndpointType.tag (pairedConfig.migrateLegacyRoutes tallyIds)
        { id := "c2", name := "events", endpoint := topicEndpoint "events", output := .publisher "vault" (some "p2") }
        { id := "p2", name := "vault", endpoint := topicEndpoint "archive" } ↔
      ComesFirst (routeHits { id := "p2", name := "vault", endpoint := topicEndpoint "archive" })
          (pairedConfig.migrateLegacyRoutes tallyIds).publishers (topicEndpoint "archive") ∧
        ComesFirst (publishHits { id := "p2", name := "vault", endpoint := topicEndpoint "archive" })
          (pairedConfig.migrateLegacyRoutes tallyIds).publishers (topicEndpoint "archive") :=
  resolversAgree_iff EndpointType.tag tallyIds pairedConfig (tallyIds_fresh (by decide)) _
    (paired_migrated ▸ .tail _ (.head _)) _ (paired_migrated ▸ .tail _ (.head _)) "vault" rfl

def shadowedConfig : AppConfig where
  consumers := [{ forwardingConsumer with output := .publisher "sink" (some "p2") }]
  publishers := [{ id := "p1", name := "sink", endpoint := topicEndpoint "audit" },
    { id := "p2", name := "sink", endpoint := topicEndpoint "archive" }]
  configSecurity := some { mode := .unencrypted }

theorem shadowed_publisher_not_resolved :
    shadowedConfig.migrateLegacyRoutes tallyIds = shadowedConfig ∧
      ¬ ResolversAgree EndpointType.tag (shadowedConfig.migrateLegacyRoutes tallyIds)
        { forwardingConsumer with output := .publisher "sink" (some "p2") }
        { id := "p2", name := "sink", endpoint := topicEndpoint "archive" } := by
  have migrated : shadowedConfig.migrateLegacyRoutes tallyIds = shadowedConfig := rfl
  refine ⟨migrated, fun agree => ?_⟩
  obtain ⟨endpoint, found, same⟩ := agree.resolved
  have first : resolveConsumerOutput EndpointType.tag
      { forwardingConsumer with output := .publisher "sink" (some "p2") }
      (shadowedConfig.migrateLegacyRoutes tallyIds).publishers = .ok (.publisher (topicEndpoint "audit")) := rfl
  rw [first] at found
  cases found
  have topics : (topicEndpoint "audit").toValue.render = (topicEndpoint "archive").toValue.render :=
    congrArg (fun endpoint : Endpoint => endpoint.toValue.render) same
  revert topics
  decide

end MqBridge.Ui
