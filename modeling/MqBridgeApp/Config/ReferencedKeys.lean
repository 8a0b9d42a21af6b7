import MqBridgeApp.Config.RemovedSecrets
import MqBridgeApp.Config.SecretLeaks

/-!
# The keys of the referenced secrets

The desktop application shows the variables that a configuration's secrets are stored under. The list
is made by a walk of its own, which collects the keys of each entity under the entity's name. A later
entity of the same name takes the place of an earlier one there, while extraction writes both.
-/

namespace MqBridge.Config
open Text

structure SecretReferenceSummary where
  routes : List (Text × List Text) := []
  consumers : List (Text × List Text) := []
  publishers : List (Text × List Text) := []

def SecretReferenceSummary.keys (summary : SecretReferenceSummary) : List Text :=
  (summary.routes ++ summary.consumers ++ summary.publishers).flatMap Prod.snd

section
variable (bridge : Bridge)

def getReferencedKeysForEntity (name id : Text) (entityType : EntityType) (endpoint : Endpoint) : List Text :=
  let tempPrefix : Text := "SECRET__"
  let endpointSecrets := Assoc.insertAll [] (extractAllSecretsFromEndpoint bridge endpoint tempPrefix).2
  let namePart := sanitizeNameForEnv name
  let idPart := sanitizeIdForEnv bridge id
  ((bridge.iterate endpointSecrets).flatMap fun secret =>
    let suffix := (stripPrefix tempPrefix secret.1).getD secret.1
    [entityPrefix entityType namePart ++ suffix, entityPrefix entityType idPart ++ suffix]).mergeSort textLe

/-- The keys that the header rows of a publisher are extracted under. -/
def publisherHeaderSecretKeys (publisher : PublisherClient) : List Text :=
  let namePart := sanitizeNameForEnv publisher.name
  let idPart := sanitizeIdForEnv bridge publisher.id
  (publisher.headers.filter isSecretRow).flatMap fun header =>
    let suffix := publisherHeaderEnvSuffix bridge header.key
    [entityPrefix .publishers namePart ++ suffix, entityPrefix .publishers idPart ++ suffix]

def referencedRouteKeys (name : Text) (config : RouteConfig) : List Text :=
  ((bridge.iterate (Assoc.insertAll [] (extractRouteSecrets bridge name config).2)).map Prod.fst).mergeSort textLe

/-- One part of the summary: what has keys, under its name. -/
def summarize (entries : List (Text × List Text)) : List (Text × List Text) :=
  Assoc.insertAll [] (entries.filter fun entry => !entry.2.isEmpty)

def AppConfig.referencedSecretKeys (config : AppConfig) : SecretReferenceSummary where
  routes := summarize (config.routes.map fun entry => (entry.1, referencedRouteKeys bridge entry.1 entry.2))
  consumers := summarize (config.consumers.map fun consumer =>
    (consumer.name, getReferencedKeysForEntity bridge consumer.name consumer.id .consumers consumer.endpoint))
  publishers := summarize (config.publishers.map fun publisher =>
    (publisher.name,
      (getReferencedKeysForEntity bridge publisher.name publisher.id .publishers publisher.endpoint ++
        publisherHeaderSecretKeys bridge publisher).mergeSort textLe))

/-! ### One entity -/

def secretSuffixes (endpoint : Endpoint) : List Text :=
  (bridge.endpoint endpoint).2.map Prod.fst ++
    (takenHeaders (bridge.endpoint endpoint).1).map fun taken =>
      (Place.header taken.1).envText bridge ++ headerEnvName bridge taken.2.1

def consumerSecretKeys (consumer : ConsumerConfig) : List Text := (extractConsumerSecrets bridge consumer).2.map Prod.fst

def publisherSecretKeys (publisher : PublisherClient) : List Text :=
  (extractPublisherSecrets bridge publisher).2.map Prod.fst

variable {bridge}

theorem extractAll_keys (endpoint : Endpoint) (pre : Text) :
    (extractAllSecretsFromEndpoint bridge endpoint pre).2.map Prod.fst =
      (secretSuffixes bridge endpoint).map fun suffix => pre ++ suffix := by
  unfold extractAllSecretsFromEndpoint secretSuffixes
  simp only [writes_eq_taken, List.map_append, List.map_map]
  rfl

def Bridge.Iterates (bridge : Bridge) : Prop := ∀ entries, (bridge.iterate entries).Perm entries

theorem mem_iterated_keys (iterates : bridge.Iterates) {writes : List (Text × Text)} {key : Text} :
    key ∈ (bridge.iterate (Assoc.insertAll [] writes)).map Prod.fst ↔ key ∈ writes.map Prod.fst := by
  rw [((iterates _).map _).mem_iff, Assoc.mem_keys_insertAll]

/-- Both walks name a secret after the end of its variable, each with a prefix of its own. -/
theorem mem_named (iterates : bridge.Iterates) {endpoint : Endpoint} (pre : Text) {key : Text}
    {named : Text → List Text} :
    (∃ secret ∈ bridge.iterate (Assoc.insertAll [] (extractAllSecretsFromEndpoint bridge endpoint pre).2),
        key ∈ named ((stripPrefix pre secret.1).getD secret.1)) ↔
      ∃ suffix ∈ secretSuffixes bridge endpoint, key ∈ named suffix := by
  have keys : ∀ text, text ∈ (bridge.iterate (Assoc.insertAll []
      (extractAllSecretsFromEndpoint bridge endpoint pre).2)).map Prod.fst ↔
      ∃ suffix ∈ secretSuffixes bridge endpoint, pre ++ suffix = text := by
    intro text
    rw [mem_iterated_keys iterates, extractAll_keys, List.mem_map]
  constructor
  · rintro ⟨secret, member, inside⟩
    obtain ⟨suffix, isSuffix, whole⟩ := (keys secret.1).mp (List.mem_map.mpr ⟨secret, member, rfl⟩)
    rw [← whole, stripPrefix_append] at inside
    exact ⟨suffix, isSuffix, inside⟩
  · rintro ⟨suffix, isSuffix, inside⟩
    obtain ⟨secret, member, whole⟩ := List.mem_map.mp ((keys (pre ++ suffix)).mpr ⟨suffix, isSuffix, rfl⟩)
    refine ⟨secret, member, ?_⟩
    rw [whole, stripPrefix_append]
    exact inside

theorem mem_extractSecretsToAll (iterates : bridge.Iterates) {name id : Text} {entityType : EntityType}
    {endpoint : Endpoint} {key : Text} :
    key ∈ (extractSecretsToAll bridge name id entityType endpoint).2.map Prod.fst ↔
      ∃ suffix ∈ secretSuffixes bridge endpoint,
        key ∈ [entityPrefix entityType (sanitizeNameForEnv name) ++ suffix,
          entityPrefix entityType (sanitizeIdForEnv bridge id) ++ suffix] := by
  rw [← mem_named iterates (entityPrefix entityType (sanitizeIdForEnv bridge id) ++ "__")]
  unfold extractSecretsToAll
  rw [List.map_flatMap, List.mem_flatMap]
  rfl

theorem mem_getReferencedKeys (iterates : bridge.Iterates) {name id : Text} {entityType : EntityType}
    {endpoint : Endpoint} {key : Text} :
    key ∈ getReferencedKeysForEntity bridge name id entityType endpoint ↔
      ∃ suffix ∈ secretSuffixes bridge endpoint,
        key ∈ [entityPrefix entityType (sanitizeNameForEnv name) ++ suffix,
          entityPrefix entityType (sanitizeIdForEnv bridge id) ++ suffix] := by
  rw [← mem_named iterates "SECRET__"]
  unfold getReferencedKeysForEntity
  rw [List.mem_mergeSort, List.mem_flatMap]

theorem mem_referencedConsumerKeys (iterates : bridge.Iterates) (consumer : ConsumerConfig) {key : Text} :
    key ∈ getReferencedKeysForEntity bridge consumer.name consumer.id .consumers consumer.endpoint ↔
      key ∈ consumerSecretKeys bridge consumer := by
  rw [mem_getReferencedKeys iterates, ← mem_extractSecretsToAll iterates]
  rfl

theorem mem_referencedPublisherKeys (iterates : bridge.Iterates) (publisher : PublisherClient) {key : Text} :
    key ∈ (getReferencedKeysForEntity bridge publisher.name publisher.id .publishers publisher.endpoint ++
        publisherHeaderSecretKeys bridge publisher).mergeSort textLe ↔ key ∈ publisherSecretKeys bridge publisher := by
  have rows : publisherHeaderSecretKeys bridge publisher =
      (extractPublisherHeaderSecrets bridge
        { publisher with
          endpoint := (extractSecretsToAll bridge publisher.name publisher.id .publishers publisher.endpoint).1 }).2.map
        Prod.fst := by
    unfold publisherHeaderSecretKeys extractPublisherHeaderSecrets
    simp only [List.map_flatMap]
    rfl
  rw [List.mem_mergeSort, List.mem_append, mem_getReferencedKeys iterates, ← mem_extractSecretsToAll iterates, rows,
    ← List.mem_append, ← List.map_append]
  rfl

theorem mem_referencedRouteKeys (iterates : bridge.Iterates) (name : Text) (config : RouteConfig) {key : Text} :
    key ∈ referencedRouteKeys bridge name config ↔ key ∈ (extractRouteSecrets bridge name config).2.map Prod.fst := by
  unfold referencedRouteKeys
  rw [List.mem_mergeSort, mem_iterated_keys iterates]

theorem consumerSecretKeys_prefix {consumer : ConsumerConfig} {key : Text} (member : key ∈ consumerSecretKeys bridge consumer) :
    ("MQB__C" : Text) <+: key := by
  obtain ⟨write, inside, rfl⟩ := List.mem_map.mp member
  obtain ⟨secret, -, which⟩ := List.mem_flatMap.mp inside
  simp only [List.mem_cons, List.not_mem_nil, or_false] at which
  rcases which with rfl | rfl
  · exact ⟨_, rfl⟩
  · exact ⟨_, rfl⟩

theorem publisherSecretKeys_prefix {publisher : PublisherClient} {key : Text} (member : key ∈ publisherSecretKeys bridge publisher) :
    ("MQB__P" : Text) <+: key := by
  obtain ⟨write, inside, rfl⟩ := List.mem_map.mp member
  rcases List.mem_append.mp inside with endpoint | rows
  · obtain ⟨secret, -, which⟩ := List.mem_flatMap.mp endpoint
    simp only [List.mem_cons, List.not_mem_nil, or_false] at which
    rcases which with rfl | rfl
    · exact ⟨_, rfl⟩
    · exact ⟨_, rfl⟩
  · obtain ⟨header, -, which⟩ := List.mem_flatMap.mp rows
    simp only [List.mem_cons, List.not_mem_nil, or_false] at which
    rcases which with rfl | rfl
    · exact ⟨_, rfl⟩
    · exact ⟨_, rfl⟩

theorem routeKeys_prefix {name key : Text} {config : RouteConfig}
    (member : key ∈ (extractRouteSecrets bridge name config).2.map Prod.fst) : ("MQB__R" : Text) <+: key := by
  obtain ⟨write, inside, rfl⟩ := List.mem_map.mp member
  rcases List.mem_append.mp inside with own | headers
  · obtain ⟨secret, -, rfl⟩ := List.mem_map.mp own
    exact ⟨_, rfl⟩
  · rcases List.mem_append.mp headers with side | side
    · rw [writes_eq_taken] at side
      obtain ⟨taken, -, rfl⟩ := List.mem_map.mp side
      exact ⟨_, rfl⟩
    · rw [writes_eq_taken] at side
      obtain ⟨taken, -, rfl⟩ := List.mem_map.mp side
      exact ⟨_, rfl⟩

/-- No key starts in two ways. -/
theorem prefix_apart {a b key : Text} (length : a.length = b.length) (differ : a ≠ b) (first : a <+: key)
    (second : b <+: key) : False :=
  differ ((List.prefix_of_prefix_length_le first second length.le).eq_of_length length)

/-! ### The names of the summary -/

/-- The entries that no later one with keys has the name of. -/
def shownEntries : List (Text × List Text) → List (Text × List Text)
  | [] => []
  | entry :: rest =>
    if rest.any fun later => later.1 == entry.1 && !later.2.isEmpty then shownEntries rest
    else entry :: shownEntries rest

theorem shownEntries_cons (entry : Text × List Text) (rest : List (Text × List Text)) :
    shownEntries (entry :: rest) =
      if rest.any fun later => later.1 == entry.1 && !later.2.isEmpty then shownEntries rest
      else entry :: shownEntries rest := rfl

theorem mem_shownEntries {entries : List (Text × List Text)} {entry : Text × List Text}
    (member : entry ∈ shownEntries entries) : entry ∈ entries := by
  induction entries with
  | nil => cases member
  | cons first rest ih =>
    unfold shownEntries at member
    split at member
    · exact List.mem_cons_of_mem _ (ih member)
    · rcases List.mem_cons.mp member with rfl | later
      · exact List.mem_cons_self
      · exact List.mem_cons_of_mem _ (ih later)

theorem not_hidden_iff {entries : List (Text × List Text)} {name : Text} :
    (entries.any fun later => later.1 == name && !later.2.isEmpty) = false ↔
      (entries.filter fun entry => !entry.2.isEmpty).reverse.lookup name = none := by
  rw [Assoc.lookup_eq_none, List.any_eq_false]
  simp only [List.mem_reverse, List.mem_filter, Bool.and_eq_true, beq_iff_eq]
  constructor
  · exact fun shown value member => shown _ member.1 ⟨rfl, member.2⟩
  · exact fun none later member found => none later.2 ⟨found.1 ▸ member, found.2⟩

/-- What a summary holds under a name is the keys of the last entry of that name that has keys. -/
theorem mem_summarize {entries : List (Text × List Text)} {entry : Text × List Text} :
    entry ∈ summarize entries ↔ entry ∈ shownEntries entries ∧ entry.2 ≠ [] := by
  unfold summarize
  rw [Assoc.mem_insertAll_iff]
  induction entries with
  | nil => simp [shownEntries]
  | cons first rest ih =>
    by_cases empty : first.2 = []
    · -- an entry without keys is never inserted
      have dropped : ((first :: rest).filter fun entry => !entry.2.isEmpty) = rest.filter fun entry => !entry.2.isEmpty :=
        List.filter_cons_of_neg (by simp [empty])
      rw [dropped, ih, shownEntries_cons]
      split
      · rfl
      · constructor
        · exact fun shown => ⟨List.mem_cons_of_mem _ shown.1, shown.2⟩
        · rintro ⟨member, full⟩
          rcases List.mem_cons.mp member with rfl | later
          · exact absurd empty full
          · exact ⟨later, full⟩
    · have kept : ((first :: rest).filter fun entry => !entry.2.isEmpty) =
          first :: rest.filter fun entry => !entry.2.isEmpty := List.filter_cons_of_pos (by simp [empty])
      rw [kept, List.reverse_cons, Assoc.lookup_append, Assoc.lookup_singleton]
      by_cases same : entry.1 = first.1
      · rw [if_pos (beq_iff_eq.mpr same)]
        cases hidden : rest.any fun later => later.1 == first.1 && !later.2.isEmpty with
        | true =>
          have overwritten : ((rest.filter fun entry => !entry.2.isEmpty).reverse.lookup entry.1) ≠ none := by
            rw [same]
            intro none
            rw [not_hidden_iff.mpr none] at hidden
            cases hidden
          obtain ⟨value, found⟩ := Option.ne_none_iff_exists'.mp overwritten
          rw [shownEntries, if_pos hidden, ← ih, found, Option.some_or]
        | false =>
          have alone := not_hidden_iff.mp hidden
          rw [← same] at alone
          rw [shownEntries, if_neg (by simp [hidden]), alone, Option.none_or]
          constructor
          · intro equal
            obtain rfl : first = entry := Prod.ext same.symm (Option.some.inj equal)
            exact ⟨List.mem_cons_self, empty⟩
          · rintro ⟨member, full⟩
            rcases List.mem_cons.mp member with rfl | later
            · rfl
            · rw [ih.mpr ⟨later, full⟩] at alone
              cases alone
      · rw [if_neg (by simpa using same), Option.or_none, ih, shownEntries_cons]
        split
        · rfl
        · have other : entry ≠ first := fun equal => same (congrArg Prod.fst equal)
          simp [other]

theorem mem_summarize_keys {entries : List (Text × List Text)} {key : Text} :
    key ∈ (summarize entries).flatMap Prod.snd ↔ ∃ entry ∈ shownEntries entries, key ∈ entry.2 := by
  rw [List.mem_flatMap]
  constructor
  · rintro ⟨entry, member, inside⟩
    exact ⟨entry, (mem_summarize.mp member).1, inside⟩
  · rintro ⟨entry, shown, inside⟩
    exact ⟨entry, mem_summarize.mpr ⟨shown, List.ne_nil_of_mem inside⟩, inside⟩

theorem shownEntries_of_nodup {entries : List (Text × List Text)} (distinct : (entries.map Prod.fst).Nodup) :
    shownEntries entries = entries := by
  induction entries with
  | nil => rfl
  | cons entry rest ih =>
    obtain ⟨absent, later⟩ := List.nodup_cons.mp distinct
    have alone : (rest.any fun other => other.1 == entry.1 && !other.2.isEmpty) = false := by
      rw [List.any_eq_false]
      intro other member both
      have same : other.1 = entry.1 := by simpa using And.left (Bool.and_eq_true_iff.mp both)
      exact absent (same ▸ List.mem_map_of_mem member)
    rw [shownEntries, if_neg (by simp [alone]), ih later]

theorem shownEntries_congr {α : Type*} {name : α → Text} {keys keys' : α → List Text} {items : List α}
    (same : ∀ item key, key ∈ keys item ↔ key ∈ keys' item) {key : Text} :
    (∃ entry ∈ shownEntries (items.map fun item => (name item, keys item)), key ∈ entry.2) ↔
      ∃ entry ∈ shownEntries (items.map fun item => (name item, keys' item)), key ∈ entry.2 := by
  induction items with
  | nil => rfl
  | cons item rest ih =>
    have empty : ∀ item, (keys item).isEmpty = (keys' item).isEmpty := by
      intro item
      rw [Bool.eq_iff_iff, List.isEmpty_iff, List.isEmpty_iff, List.eq_nil_iff_forall_not_mem,
        List.eq_nil_iff_forall_not_mem]
      simp only [same]
    simp only [List.map_cons, shownEntries, List.any_map, Function.comp_def, empty]
    split
    · exact ih
    · simp only [List.mem_cons, exists_eq_or_imp, ih, same]

/-! ### The whole configuration -/

def AppConfig.consumerEntries (bridge : Bridge) (config : AppConfig) : List (Text × List Text) :=
  config.consumers.map fun consumer => (consumer.name, consumerSecretKeys bridge consumer)

def AppConfig.publisherEntries (bridge : Bridge) (config : AppConfig) : List (Text × List Text) :=
  config.publishers.map fun publisher => (publisher.name, publisherSecretKeys bridge publisher)

def AppConfig.routeEntries (bridge : Bridge) (config : AppConfig) : List (Text × List Text) :=
  config.routes.map fun entry => (entry.1, (extractRouteSecrets bridge entry.1 entry.2).2.map Prod.fst)

/-- Each key of an entity is also one of an entity that is shown. -/
def NoKeyHidden (entries : List (Text × List Text)) : Prop :=
  ∀ entry ∈ entries, ∀ key ∈ entry.2, ∃ shown ∈ shownEntries entries, key ∈ shown.2

theorem mem_extracted_keys {config : AppConfig} {key : Text} :
    key ∈ (config.extractSecretValues bridge).2.map Prod.fst ↔
      (∃ entry ∈ config.routeEntries bridge, key ∈ entry.2) ∨
        (∃ entry ∈ config.consumerEntries bridge, key ∈ entry.2) ∨
          ∃ entry ∈ config.publisherEntries bridge, key ∈ entry.2 := by
  unfold AppConfig.extractSecretValues AppConfig.secretWrites AppConfig.routeEntries AppConfig.consumerEntries
    AppConfig.publisherEntries
  rw [Assoc.mem_keys_insertAll, List.map_append, List.map_append, List.mem_append, List.mem_append, or_assoc]
  simp only [List.map_flatMap, List.mem_flatMap, List.mem_map, exists_exists_and_eq_and, consumerSecretKeys, publisherSecretKeys]

theorem mem_listed_keys (iterates : bridge.Iterates) (config : AppConfig)
    (distinct : (config.routes.map Prod.fst).Nodup) {key : Text} :
    key ∈ (config.referencedSecretKeys bridge).keys ↔
      (∃ entry ∈ config.routeEntries bridge, key ∈ entry.2) ∨
        (∃ entry ∈ shownEntries (config.consumerEntries bridge), key ∈ entry.2) ∨
          ∃ entry ∈ shownEntries (config.publisherEntries bridge), key ∈ entry.2 := by
  have routes : shownEntries (config.routeEntries bridge) = config.routeEntries bridge := by
    apply shownEntries_of_nodup
    rw [AppConfig.routeEntries, List.map_map]
    exact distinct
  rw [← routes]
  unfold SecretReferenceSummary.keys AppConfig.referencedSecretKeys AppConfig.routeEntries AppConfig.consumerEntries
    AppConfig.publisherEntries
  rw [List.flatMap_append, List.flatMap_append, List.mem_append, List.mem_append, or_assoc, mem_summarize_keys,
    mem_summarize_keys, mem_summarize_keys,
    shownEntries_congr fun entry key => mem_referencedRouteKeys iterates entry.1 entry.2,
    shownEntries_congr fun consumer key => mem_referencedConsumerKeys iterates consumer,
    shownEntries_congr fun publisher key => mem_referencedPublisherKeys iterates publisher]

/-- The summary lists the variables that extraction sets exactly when no key is hidden by a later
entity of the same name. -/
theorem referencedSecretKeys_iff (bridge : Bridge) (iterates : bridge.Iterates) (config : AppConfig)
    (distinct : (config.routes.map Prod.fst).Nodup) :
    (∀ key, key ∈ (config.referencedSecretKeys bridge).keys ↔
        key ∈ (config.extractSecretValues bridge).2.map Prod.fst) ↔
      NoKeyHidden (config.consumerEntries bridge) ∧ NoKeyHidden (config.publisherEntries bridge) := by
  have fromRoute : ∀ key, (∃ entry ∈ config.routeEntries bridge, key ∈ entry.2) → ("MQB__R" : Text) <+: key := by
    rintro key ⟨entry, member, inside⟩
    obtain ⟨route, -, rfl⟩ := List.mem_map.mp member
    exact routeKeys_prefix inside
  have fromConsumer : ∀ key, (∃ entry ∈ config.consumerEntries bridge, key ∈ entry.2) →
      ("MQB__C" : Text) <+: key := by
    rintro key ⟨entry, member, inside⟩
    obtain ⟨consumer, -, rfl⟩ := List.mem_map.mp member
    exact consumerSecretKeys_prefix inside
  have fromPublisher : ∀ key, (∃ entry ∈ config.publisherEntries bridge, key ∈ entry.2) →
      ("MQB__P" : Text) <+: key := by
    rintro key ⟨entry, member, inside⟩
    obtain ⟨publisher, -, rfl⟩ := List.mem_map.mp member
    exact publisherSecretKeys_prefix inside
  have ofShown : ∀ {entries : List (Text × List Text)} {key}, (∃ entry ∈ shownEntries entries, key ∈ entry.2) →
      ∃ entry ∈ entries, key ∈ entry.2 :=
    fun ⟨entry, shown, inside⟩ => ⟨entry, mem_shownEntries shown, inside⟩
  constructor
  · intro same
    constructor
    · intro entry member key inside
      have listed := (same key).mpr (mem_extracted_keys.mpr (.inr (.inl ⟨entry, member, inside⟩)))
      have here := fromConsumer key ⟨entry, member, inside⟩
      rcases (mem_listed_keys iterates config distinct).mp listed with route | consumer | publisher
      · exact (prefix_apart (by decide) (by decide) here (fromRoute key route)).elim
      · exact consumer
      · exact (prefix_apart (by decide) (by decide) here (fromPublisher key (ofShown publisher))).elim
    · intro entry member key inside
      have listed := (same key).mpr (mem_extracted_keys.mpr (.inr (.inr ⟨entry, member, inside⟩)))
      have here := fromPublisher key ⟨entry, member, inside⟩
      rcases (mem_listed_keys iterates config distinct).mp listed with route | consumer | publisher
      · exact (prefix_apart (by decide) (by decide) here (fromRoute key route)).elim
      · exact (prefix_apart (by decide) (by decide) here (fromConsumer key (ofShown consumer))).elim
      · exact publisher
  · rintro ⟨consumers, publishers⟩ key
    rw [mem_listed_keys iterates config distinct, mem_extracted_keys]
    constructor
    · exact Or.imp_right (Or.imp ofShown ofShown)
    · exact Or.imp_right (Or.imp (fun ⟨entry, member, inside⟩ => consumers entry member key inside)
        fun ⟨entry, member, inside⟩ => publishers entry member key inside)

end

theorem noOwnSecrets_iterates : noOwnSecrets.Iterates := fun _ => .refl _

def namesakes : AppConfig where
  publishers :=
    [{ id := "p1", name := "api", endpoint := httpWithHeader "Authorization" "Bearer one" },
      { id := "p2", name := "api", endpoint := httpWithHeader "Authorization" "Bearer two" }]

theorem referencedSecretKeys_iff_namesakes :
    (∀ key, key ∈ (namesakes.referencedSecretKeys noOwnSecrets).keys ↔
        key ∈ (namesakes.extractSecretValues noOwnSecrets).2.map Prod.fst) ↔
      NoKeyHidden (namesakes.consumerEntries noOwnSecrets) ∧ NoKeyHidden (namesakes.publisherEntries noOwnSecrets) :=
  referencedSecretKeys_iff noOwnSecrets noOwnSecrets_iterates namesakes List.nodup_nil

/-- The first publisher's token is stored under a key that is not listed. -/
theorem namesake_key_unlisted :
    ¬ ∀ key, key ∈ (namesakes.referencedSecretKeys noOwnSecrets).keys ↔
      key ∈ (namesakes.extractSecretValues noOwnSecrets).2.map Prod.fst := by
  intro same
  have extracted : ("MQB__PUBLISHERS__P1__HTTP__CUSTOM_HEADERS__AUTHORIZATION" : Text) ∈
      (namesakes.extractSecretValues noOwnSecrets).2.map Prod.fst := by decide +kernel
  have listed := (mem_listed_keys noOwnSecrets_iterates namesakes List.nodup_nil).mp ((same _).mpr extracted)
  rcases listed with ⟨entry, member, -⟩ | ⟨entry, member, -⟩ | publisher
  · cases member
  · cases member
  · revert publisher
    decide +kernel

end MqBridge.Config
