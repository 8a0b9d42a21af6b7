import MqBridgeApp.Config.RemovedPlaces

/-!
# Loading with the extracted variables

The loader splits a variable's name at every `__`, lower-cases the segments and sets the value at that
path. Extraction puts four underscores before the side of a route, which is a segment no place has, and
consumers and publishers are lists, which no variable reaches into. So no secret comes back.
-/

namespace MqBridge.Config
open Text

/-- The pieces of a text between its `__`, found from the left. -/
def segments : Text → List Text
  | '_' :: '_' :: rest => [] :: segments rest
  | c :: rest =>
    match segments rest with
    | [] => [[c]]
    | first :: others => (c :: first) :: others
  | [] => [[]]

structure Loader where
  /-- Unicode lower case. -/
  lowercase : Text → Text
  parseNumber : Text → Option JsonNumber

def Loader.Ascii (loader : Loader) : Prop :=
  ∀ text : Text, (∀ c ∈ text, c.toNat < 128) → loader.lowercase text = toAsciiLowercase text

section
variable (loader : Loader)

/-- The path a variable sets, if it has the application's prefix. -/
def Loader.envPath (name : Text) : Option (List Text) :=
  (stripPrefix "MQB__" name).map fun rest => (segments rest).map loader.lowercase

def Loader.parseValue (text : Text) : Json :=
  if loader.lowercase text = "true" then .bool true
  else if loader.lowercase text = "false" then .bool false
  else
    match loader.parseNumber text with
    | some number => .num number
    | none => .str text

/-- What the variables of an environment set. Empty ones are ignored. -/
def Loader.writes (env : List (Text × Text)) : List (List Text × Json) :=
  env.filterMap fun entry =>
    if entry.2.isEmpty then none
    else (loader.envPath entry.1).map fun path => (path, loader.parseValue entry.2)

def Loader.overlay (env : List (Text × Text)) (base : Json) : Json :=
  (loader.writes env).foldl (fun value write => Json.setAt write.2 write.1 value) base

/-- Loading what extraction leaves, with the variables it returns, finds the secret in its place. -/
def Restored (bridge : Bridge) (config : AppConfig) (removed : Removed) : Prop :=
  (loader.overlay (config.extractSecretValues bridge).2 (config.extractSecretValues bridge).1.toValue).follow
    removed.location = some (.str removed.value)

end

theorem segments_ne_nil (text : Text) : segments text ≠ [] := by
  unfold segments
  split
  · simp
  · split <;> simp
  · simp

theorem segments_cons {c : Char} {rest first : Text} {others : List Text}
    (single : c ≠ '_' ∨ rest.head? ≠ some '_') (split : segments rest = first :: others) :
    segments (c :: rest) = (c :: first) :: others := by
  rw [segments.eq_2, split]
  rintro rest' rfl rfl
  rcases single with other | other
  · exact other rfl
  · exact other rfl

theorem segments_word {word : Text} (plain : '_' ∉ word) (rest : Text) :
    segments (word ++ '_' :: '_' :: rest) = word :: segments rest := by
  induction word with
  | nil => rfl
  | cons c word ih =>
    simp only [List.mem_cons, not_or] at plain
    exact segments_cons (.inl (Ne.symm plain.1)) (ih plain.2)

/-- Four underscores leave an empty segment, whatever is before them. -/
theorem segments_gap {side : Text} (plain : '_' ∉ side) (nonempty : side ≠ []) (name tail : Text) :
    ∃ front gap back, front ≠ [] ∧ (gap = side ∨ gap = '_' :: side) ∧
      segments (name ++ '_' :: '_' :: '_' :: '_' :: (side ++ '_' :: '_' :: tail)) = front ++ [] :: gap :: back := by
  have whole : segments (side ++ '_' :: '_' :: tail) = side :: segments tail := segments_word plain tail
  have shifted : segments ('_' :: (side ++ '_' :: '_' :: tail)) = ('_' :: side) :: segments tail := by
    apply segments_cons (.inr ?_) whole
    cases side with
    | nil => exact absurd rfl nonempty
    | cons first rest =>
      simp only [List.mem_cons, not_or] at plain
      simpa using Ne.symm plain.1
  have single : ∀ (c : Char) (rest : Text), (c = '_' → rest ≠ [] ∧ rest.head? ≠ some '_') →
      (∃ front gap back, front ≠ [] ∧ (gap = side ∨ gap = '_' :: side) ∧
        segments (rest ++ '_' :: '_' :: '_' :: '_' :: (side ++ '_' :: '_' :: tail)) = front ++ [] :: gap :: back) →
      ∃ front gap back, front ≠ [] ∧ (gap = side ∨ gap = '_' :: side) ∧
        segments (c :: rest ++ '_' :: '_' :: '_' :: '_' :: (side ++ '_' :: '_' :: tail)) =
          front ++ [] :: gap :: back := by
    rintro c rest alone ⟨front, gap, back, some_, which, split⟩
    cases front with
    | nil => exact absurd rfl some_
    | cons first others =>
      refine ⟨(c :: first) :: others, gap, back, by simp, which, ?_⟩
      apply segments_cons ?_ split
      by_cases underscore : c = '_'
      · obtain ⟨more, other⟩ := alone underscore
        cases rest with
        | nil => exact absurd rfl more
        | cons next rest => exact .inr other
      · exact .inl underscore
  induction name using segments.induct with
  | case1 rest ih =>
    obtain ⟨front, gap, back, -, which, split⟩ := ih
    refine ⟨[] :: front, gap, back, by simp, which, ?_⟩
    rw [List.cons_append, List.cons_append, segments, split]
    rfl
  | case2 c rest apart empty ih => exact absurd empty (segments_ne_nil rest)
  | case3 c rest apart first others here ih =>
    by_cases last : c = '_' ∧ rest = []
    · obtain ⟨rfl, rfl⟩ := last
      refine ⟨[[]], '_' :: side, segments tail, by simp, .inr rfl, ?_⟩
      rw [List.cons_append, List.nil_append, segments, segments, shifted]
      rfl
    · apply single c rest ?_ ih
      intro underscore
      refine ⟨fun empty => last ⟨underscore, empty⟩, fun next => ?_⟩
      cases rest with
      | nil => cases next
      | cons second rest => exact apart rest underscore (by rw [Option.some.inj next])
  | case4 =>
    refine ⟨[[]], side, segments tail, by simp, .inl rfl, ?_⟩
    rw [List.nil_append, segments, segments, whole]
    rfl

/-! ### Places without an empty segment -/

/-- An empty key comes right before `after`. -/
def Gap (steps : List Step) (after : Text) : Prop := ∃ front back, steps = front ++ .key [] :: .key after :: back

theorem Gap.skip {step : Step} {steps : List Step} {after : Text} (other : step ≠ .key [])
    (gap : Gap (step :: steps) after) : Gap steps after := by
  obtain ⟨front, back, split⟩ := gap
  cases front with
  | nil => exact absurd (List.cons.inj split).1 other
  | cons first front => exact ⟨front, back, (List.cons.inj split).2⟩

def endpointKeys : List Text := ["middlewares", "fanout", "switch", "reader", "request", "http"]

theorem headerSteps_head (path : List Edge) (name : Text) :
    ∃ key ∈ endpointKeys, ∃ rest, headerSteps path name = .key key :: rest := by
  cases path with
  | nil => exact ⟨"http", by decide, _, rfl⟩
  | cons edge path =>
    cases edge with
    | dlq index => exact ⟨"middlewares", by decide, _, rfl⟩
    | fanout index => exact ⟨"fanout", by decide, _, rfl⟩
    | switchCase case_ => exact ⟨"switch", by decide, _, rfl⟩
    | switchWhen index => exact ⟨"switch", by decide, _, rfl⟩
    | switchDefault => exact ⟨"switch", by decide, _, rfl⟩
    | reader => exact ⟨"reader", by decide, _, rfl⟩
    | requestTo => exact ⟨"request", by decide, _, rfl⟩
    | requestForwardTo => exact ⟨"request", by decide, _, rfl⟩
    | streamResponseTo => exact ⟨"http", by decide, _, rfl⟩

theorem headerSteps_last (before : List Step) (path : List Edge) (name : Text) :
    (before ++ headerSteps path name).getLast? = some (.key name) := by
  have split : before ++ headerSteps path name =
      (before ++ path.flatMap edgeSteps ++ [.key "http", .key "custom_headers"]) ++ [.key name] := by
    rw [headerSteps]
    simp
  rw [split, List.getLast?_concat]

theorem step_ne {name : Text} (full : name ≠ []) : Step.key name ≠ .key [] := by simpa using full

theorem index_ne (index : Nat) : Step.index index ≠ .key [] := nofun

/-- Only a switch case can have an empty name, and an endpoint comes after it. -/
theorem headerSteps_gap {path : List Edge} {name after : Text} (full : name ≠ [])
    (gap : Gap (headerSteps path name) after) : after ∈ endpointKeys := by
  induction path with
  | nil =>
    obtain ⟨front, back, split⟩ := ((gap.skip (step_ne (by decide))).skip (step_ne (by decide))).skip (step_ne full)
    cases front <;> cases split
  | cons edge path ih =>
    have whole : headerSteps (edge :: path) name = edgeSteps edge ++ headerSteps path name := by
      rw [headerSteps, List.flatMap_cons, List.append_assoc, ← headerSteps]
    rw [whole] at gap
    cases edge with
    | dlq index =>
      exact ih ((((gap.skip (step_ne (by decide))).skip (index_ne index)).skip (step_ne (by decide))).skip
        (step_ne (by decide)))
    | fanout index => exact ih ((gap.skip (step_ne (by decide))).skip (index_ne index))
    | switchCase case_ =>
      obtain ⟨front, back, split⟩ := (gap.skip (step_ne (by decide))).skip (step_ne (by decide))
      cases front with
      | nil =>
        obtain ⟨key, known, rest, head⟩ := headerSteps_head path name
        have next : headerSteps path name = .key after :: back := (List.cons.inj split).2
        rw [head] at next
        rw [← Step.key.inj (List.cons.inj next).1]
        exact known
      | cons first front => exact ih ⟨front, back, (List.cons.inj split).2⟩
    | switchWhen index =>
      exact ih ((((gap.skip (step_ne (by decide))).skip (step_ne (by decide))).skip (index_ne index)).skip
        (step_ne (by decide)))
    | switchDefault => exact ih ((gap.skip (step_ne (by decide))).skip (step_ne (by decide)))
    | reader => exact ih (gap.skip (step_ne (by decide)))
    | requestTo => exact ih ((gap.skip (step_ne (by decide))).skip (step_ne (by decide)))
    | requestForwardTo => exact ih ((gap.skip (step_ne (by decide))).skip (step_ne (by decide)))
    | streamResponseTo => exact ih ((gap.skip (step_ne (by decide))).skip (step_ne (by decide)))

/-- A header's variable goes on with a separator after its owner's part. -/
theorem header_envText (bridge : Bridge) (path : List Edge) (rest : Text) :
    ∃ tail, (Place.header path).envText bridge ++ rest = "__" ++ tail := by
  have start : ∃ tail, (Place.header path).envText bridge = "__" ++ tail := by
    induction path with
    | nil => exact ⟨"HTTP__CUSTOM_HEADERS__", rfl⟩
    | cons edge path ih =>
      rw [Place.envText, pathEnvText, List.flatMap_cons, List.append_assoc]
      cases edge with
      | switchWhen index => exact ih
      | requestTo => exact ih
      | requestForwardTo => exact ih
      | streamResponseTo => exact ih
      | _ => exact ⟨_, rfl⟩
  obtain ⟨tail, split⟩ := start
  exact ⟨tail ++ rest, by rw [split, List.append_assoc]⟩

theorem extractSecretsToAll_keys {bridge : Bridge} {name id : Text} {entityType : EntityType} {endpoint : Endpoint}
    {write : Text × Text} (member : write ∈ (extractSecretsToAll bridge name id entityType endpoint).2) :
    ∃ tail, write.1 = "MQB__" ++ entityType.text ++ "__" ++ tail := by
  obtain ⟨secret, -, inside⟩ := List.mem_flatMap.mp member
  simp only [List.mem_cons, List.not_mem_nil, or_false] at inside
  rcases inside with rfl | rfl
  · exact ⟨_, by rw [entityPrefix, List.append_assoc]⟩
  · exact ⟨_, by rw [entityPrefix, List.append_assoc]⟩

/-- What a variable that extraction sets is named. -/
theorem secretWrites_cases {bridge : Bridge} {config : AppConfig} {write : Text × Text}
    (member : write ∈ config.secretWrites bridge) :
    (∃ route pre, ∃ secret ∈ (bridge.route route).2, write.1 = pre ++ secret.1) ∨
      (∃ side ∈ (["INPUT", "OUTPUT"] : List Text), ∃ name tail,
        write.1 = "MQB__ROUTES__" ++ (name ++ ("____" ++ (side ++ ("__" ++ tail))))) ∨
      ∃ (entityType : EntityType) (tail : Text), write.1 = "MQB__" ++ entityType.text ++ "__" ++ tail := by
  rcases List.mem_append.mp member with member | fromPublisher
  · rcases List.mem_append.mp member with fromRoute | fromConsumer
    · obtain ⟨entry, -, inside⟩ := List.mem_flatMap.mp fromRoute
      rcases List.mem_append.mp inside with own | headers
      · obtain ⟨secret, there, rfl⟩ := List.mem_map.mp own
        exact .inl ⟨entry.2.route, _, secret, there, rfl⟩
      · refine .inr (.inl ?_)
        rcases List.mem_append.mp headers with side | side
        · rw [writes_eq_taken] at side
          obtain ⟨taken, -, rfl⟩ := List.mem_map.mp side
          obtain ⟨tail, split⟩ := header_envText bridge taken.1 (headerEnvName bridge taken.2.1)
          refine ⟨"INPUT", by decide, sanitizeNameForEnv entry.1, tail, ?_⟩
          rw [split]
          simp [lit]
        · rw [writes_eq_taken] at side
          obtain ⟨taken, -, rfl⟩ := List.mem_map.mp side
          obtain ⟨tail, split⟩ := header_envText bridge taken.1 (headerEnvName bridge taken.2.1)
          refine ⟨"OUTPUT", by decide, sanitizeNameForEnv entry.1, tail, ?_⟩
          rw [split]
          simp [lit]
    · obtain ⟨consumer, -, inside⟩ := List.mem_flatMap.mp fromConsumer
      obtain ⟨tail, same⟩ := extractSecretsToAll_keys inside
      exact .inr (.inr ⟨.consumers, tail, same⟩)
  · obtain ⟨publisher, -, inside⟩ := List.mem_flatMap.mp fromPublisher
    rcases List.mem_append.mp inside with endpoint | rows
    · obtain ⟨tail, same⟩ := extractSecretsToAll_keys endpoint
      exact .inr (.inr ⟨.publishers, tail, same⟩)
    · obtain ⟨header, -, keys⟩ := List.mem_flatMap.mp rows
      simp only [List.mem_cons, List.not_mem_nil, or_false] at keys
      rcases keys with rfl | rfl
      · exact .inr (.inr ⟨.publishers, _, by rw [entityPrefix, List.append_assoc]⟩)
      · exact .inr (.inr ⟨.publishers, _, by rw [entityPrefix, List.append_assoc]⟩)

/-! ### Nothing comes back -/

/-- No variable that a connector sets for a route ends in the name of a sensitive header. -/
def Loader.OwnApart (loader : Loader) (bridge : Bridge) : Prop :=
  ∀ route, ∀ secret ∈ (bridge.route route).2, ∀ pre path, loader.envPath (pre ++ secret.1) = some path →
    ∀ last, path.getLast? = some last → isSensitiveHttpHeader last = false

theorem parseValue_scalar (loader : Loader) (text : Text) : (loader.parseValue text).isScalar = true := by
  unfold Loader.parseValue
  split
  · rfl
  · split
    · rfl
    · split <;> rfl

theorem Loader.mem_writes (loader : Loader) {env : List (Text × Text)} {write : List Text × Json}
    (inside : write ∈ loader.writes env) :
    ∃ entry ∈ env, ∃ path, loader.envPath entry.1 = some path ∧ (path, loader.parseValue entry.2) = write := by
  obtain ⟨entry, there, which⟩ := List.mem_filterMap.mp inside
  split at which
  · cases which
  · exact ⟨entry, there, Option.map_eq_some_iff.mp which⟩

theorem Loader.writes_scalar (loader : Loader) (env : List (Text × Text)) :
    ∀ write ∈ loader.writes env, write.2.isScalar = true := by
  intro write inside
  obtain ⟨entry, -, path, -, rfl⟩ := loader.mem_writes inside
  exact parseValue_scalar loader entry.2

theorem location_cases {bridge : Bridge} {config : AppConfig} {removed : Removed}
    (member : removed ∈ config.removedSecrets bridge) :
    (∃ (route side : Text) (path : List Edge), side ∈ (["input", "output"] : List Text) ∧ isSensitiveHttpHeader removed.name = true ∧
        removed.location = .key "routes" :: .key route :: .key side :: headerSteps path removed.name) ∨
      ∃ list index rest, removed.location = .key list :: .index index :: rest := by
  rcases List.mem_append.mp member with member | fromPublisher
  · rcases List.mem_append.mp member with fromRoute | fromConsumer
    · obtain ⟨entry, -, inside⟩ := List.mem_flatMap.mp fromRoute
      rcases List.mem_append.mp inside with side | side
      · obtain ⟨path, owner, place, sensitive, -⟩ := sensitive_of_ownerHeaders side
        exact .inl ⟨entry.1, "input", path, List.mem_cons_self, sensitive, by rw [Removed.location, place, owner]; rfl⟩
      · obtain ⟨path, owner, place, sensitive, -⟩ := sensitive_of_ownerHeaders side
        exact .inl ⟨entry.1, "output", path, List.mem_cons_of_mem _ List.mem_cons_self, sensitive, by rw [Removed.location, place, owner]; rfl⟩
    · obtain ⟨consumer, -, inside⟩ := List.mem_flatMap.mp fromConsumer
      obtain ⟨path, owner, place, -, -⟩ := sensitive_of_ownerHeaders inside
      exact .inr ⟨"consumers", consumer.2, _, by rw [Removed.location, place, owner]; rfl⟩
  · obtain ⟨publisher, -, inside⟩ := List.mem_flatMap.mp fromPublisher
    rcases List.mem_append.mp inside with header | row
    · obtain ⟨path, owner, place, -, -⟩ := sensitive_of_ownerHeaders header
      exact .inr ⟨"publishers", publisher.2, _, by rw [Removed.location, place, owner]; rfl⟩
    · obtain ⟨header, -, rfl⟩ := List.mem_map.mp row
      exact .inr ⟨"publishers", publisher.2, _, rfl⟩

theorem envPath_head {loader : Loader} {head rest : Text} (plain : '_' ∉ head) :
    loader.envPath ("MQB__" ++ (head ++ '_' :: '_' :: rest)) =
      some (loader.lowercase head :: (segments rest).map loader.lowercase) := by
  rw [Loader.envPath, stripPrefix_append, Option.map_some, segments_word plain, List.map_cons]

/-- No header variable of a route leads to a place of a route's header. -/
theorem route_variable_misses {loader : Loader} (ascii : loader.Ascii) {side name tail : Text}
    (known : side ∈ (["INPUT", "OUTPUT"] : List Text)) {path : List Text}
    (set : loader.envPath ("MQB__ROUTES__" ++ (name ++ ("____" ++ (side ++ ("__" ++ tail))))) = some path)
    {route side' header : Text} (side'_ : side' ∈ (["input", "output"] : List Text)) (full : header ≠ [])
    {edges : List Edge} :
    .key "routes" :: .key route :: .key side' :: headerSteps edges header ≠ path.map .key := by
  intro same
  have plain : '_' ∉ side := by
    rcases List.mem_pair.mp known with rfl | rfl <;> decide
  have nonempty : side ≠ [] := by
    rcases List.mem_pair.mp known with rfl | rfl <;> decide
  obtain ⟨front, gap, back, some_, which, split⟩ := segments_gap plain nonempty name tail
  have start : ("MQB__ROUTES__" : Text) ++ (name ++ ("____" ++ (side ++ ("__" ++ tail)))) =
      "MQB__" ++ ("ROUTES" ++ '_' :: '_' ::
        (name ++ '_' :: '_' :: '_' :: '_' :: (side ++ '_' :: '_' :: tail))) := by
    simp [lit]
  rw [start, envPath_head (by decide), split] at set
  obtain rfl := Option.some.inj set
  have empty : loader.lowercase [] = [] := ascii [] nofun
  cases front with
  | nil => exact some_ rfl
  | cons first front =>
    simp only [List.cons_append, List.map_cons, List.map_append, List.cons.injEq, empty] at same
    have found : Gap (.key side' :: headerSteps edges header) (loader.lowercase gap) :=
      ⟨_, _, same.2.2⟩
    have apart : side' ≠ [] := by rcases List.mem_pair.mp side'_ with rfl | rfl <;> decide
    have key := headerSteps_gap full (found.skip (step_ne apart))
    rcases List.mem_pair.mp known with rfl | rfl <;> rcases which with rfl | rfl <;>
      rw [ascii _ (List.all_iff_forall_prop.mp (by decide))] at key <;> revert key <;> decide

/-- No removed secret is back in its place after loading. -/
theorem removed_not_restored {loader : Loader} {bridge : Bridge} (ascii : loader.Ascii)
    (own : loader.OwnApart bridge) {config : AppConfig} {removed : Removed}
    (member : removed ∈ config.removedSecrets bridge) : ¬ Restored loader bridge config removed := by
  intro restored
  have set : ∃ write ∈ config.secretWrites bridge, ∃ path, loader.envPath write.1 = some path ∧
      removed.location = path.map .key := by
    rcases Json.follow_setAll (loader.writes_scalar _) restored with left | ⟨write, inside, here⟩
    · exact absurd left (location_emptied member)
    · obtain ⟨entry, there, path, parsed, rfl⟩ := loader.mem_writes inside
      rcases Assoc.mem_insertAll there with old | written
      · cases old
      · exact ⟨entry, written, path, parsed, here⟩
  obtain ⟨write, written, path, parsed, here⟩ := set
  rcases location_cases member with ⟨route, side, edges, which, sensitive, location⟩ | ⟨list, index, rest, location⟩
  · rw [location] at here
    rcases secretWrites_cases written with ⟨route', pre, secret, there, name⟩ | ⟨side', known, name, tail, same⟩ |
      ⟨entityType, tail, same⟩
    · have last : path.getLast? = some removed.name := by
        have ends : (path.map Step.key).getLast? = some (.key removed.name) := by
          rw [← here]
          exact headerSteps_last [.key "routes", .key route, .key side] edges removed.name
        rw [List.getLast?_map] at ends
        obtain ⟨name', final, same⟩ := Option.map_eq_some_iff.mp ends
        rw [final, Step.key.inj same]
      rw [own route' secret there pre path (name ▸ parsed) removed.name last] at sensitive
      cases sensitive
    · have full : removed.name ≠ [] := by
        intro empty
        rw [empty] at sensitive
        revert sensitive
        decide
      exact route_variable_misses ascii known (same ▸ parsed) which full here
    · have start : write.1 = "MQB__" ++ (entityType.text ++ '_' :: '_' :: tail) := by
        rw [same]
        simp [lit]
      rw [start, envPath_head (by cases entityType <;> decide)] at parsed
      obtain rfl := Option.some.inj parsed
      have head := Step.key.inj (List.cons.inj here).1
      cases entityType <;> rw [ascii _ (List.all_iff_forall_prop.mp (by decide))] at head <;> revert head <;> decide
  · rw [location] at here
    have inPath : Step.index index ∈ path.map Step.key := by
      rw [← here]
      exact List.mem_cons_of_mem _ List.mem_cons_self
    obtain ⟨name, -, same⟩ := List.mem_map.mp inPath
    cases same

/-- Every removed secret comes back exactly when none is removed. -/
theorem allRestored_iff (loader : Loader) (bridge : Bridge) (ascii : loader.Ascii) (own : loader.OwnApart bridge)
    (config : AppConfig) :
    (∀ removed ∈ config.removedSecrets bridge, Restored loader bridge config removed) ↔
      config.removedSecrets bridge = [] := by
  rw [List.eq_nil_iff_forall_not_mem]
  constructor
  · exact fun all removed member => removed_not_restored ascii own member (all removed member)
  · exact fun none removed member => absurd member (none removed)

def asciiLoader : Loader where
  lowercase := toAsciiLowercase
  parseNumber _ := none

def routeWithHeader (name value : Text) : AppConfig where
  routes := [("orders",
    { route := ⟨.new (.connector .memory (.record [("topic", .str "orders")])), httpWithHeader name value, {}⟩ })]

theorem noOwnSecrets_apart : asciiLoader.OwnApart noOwnSecrets := fun _ _ member => nomatch member

theorem allRestored_iff_plainHeader :
    (∀ removed ∈ (routeWithHeader "accept" "text/plain").removedSecrets noOwnSecrets,
        Restored asciiLoader noOwnSecrets (routeWithHeader "accept" "text/plain") removed) ↔
      (routeWithHeader "accept" "text/plain").removedSecrets noOwnSecrets = [] :=
  allRestored_iff asciiLoader noOwnSecrets (fun _ _ => rfl) noOwnSecrets_apart _

theorem route_header_not_restored :
    (⟨.output "orders", .header [], "authorization", "Bearer t0ken"⟩ : Removed) ∈
        (routeWithHeader "authorization" "Bearer t0ken").removedSecrets noOwnSecrets ∧
      ¬ Restored asciiLoader noOwnSecrets (routeWithHeader "authorization" "Bearer t0ken")
        ⟨.output "orders", .header [], "authorization", "Bearer t0ken"⟩ := by
  have member : (⟨.output "orders", .header [], "authorization", "Bearer t0ken"⟩ : Removed) ∈
      (routeWithHeader "authorization" "Bearer t0ken").removedSecrets noOwnSecrets := by
    apply List.mem_append_left
    apply List.mem_append_left
    refine List.mem_flatMap.mpr ⟨_, List.mem_singleton_self _, List.mem_append_right _ ?_⟩
    refine List.mem_map.mpr ⟨([], "authorization", "Bearer t0ken"), ?_, rfl⟩
    rw [takenHeaders_eq]
    exact List.mem_append_right _ (List.mem_map_of_mem (List.mem_filter.mpr ⟨List.mem_singleton_self _, by decide⟩))
  exact ⟨member, removed_not_restored (fun _ _ => rfl) noOwnSecrets_apart member⟩

end MqBridge.Config
