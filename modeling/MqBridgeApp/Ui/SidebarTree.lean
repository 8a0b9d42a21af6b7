import MqBridgeApp.Lib.Grouping
import MqBridgeApp.Ui.EndpointDefaults
import MqBridgeApp.Ui.HttpGroups

/-!
# The trees of the sidebar

The publishers and the consumers of a workspace are filed into buckets: the requests to one HTTP server share a bucket,
which is shown as the trie of their paths, and every other endpoint is filed under its kind, its server and the first
segment of what it addresses. A bucket that shows one leaf only is shown as this leaf.
-/

namespace MqBridge.Ui
open Text

universe v

/-! ### Addresses -/

/-- What `new URL` makes of a text: its path, its query, the text without credentials, and its root. -/
structure ParsedUrl where
  pathname : Text
  search : Text
  withoutCredentials : Text
  root : Text

structure SidebarBrowser where
  toLowerCase : Text → Text
  toUpperCase : Text → Text
  localeCompare : Text → Text → Ordering
  newUrl : Text → Option ParsedUrl
  toFinite : JsonNumber → Option ℚ
  getTechnicalDisplayLabel : Record → Text → Text

/-- The user of a `//user:password@` at the start of a text, and what follows it. -/
def credentialsAt : Text → Option (Text × Text)
  | '/' :: '/' :: more =>
    let isUser := fun c => !(c = '/' || c = '@' || c = ':' || isJsSpace c)
    let isPassword := fun c => !(c = '@' || c = '/' || isJsSpace c)
    match more.takeWhile isUser, more.dropWhile isUser with
    | user, ':' :: rest =>
      match rest.takeWhile isPassword, rest.dropWhile isPassword with
      | password, '@' :: after => if user.isEmpty || password.isEmpty then none else some (user, after)
      | _, _ => none
    | _, _ => none
  | _ => none

/-- The replacement of every `//user:password@` by `//user@`, for as many steps as the text has characters. -/
def dropPasswords : Nat → Text → Text
  | _, [] => []
  | 0, text => text
  | steps + 1, c :: rest =>
    match credentialsAt (c :: rest) with
    | some (user, after) => '/' :: '/' :: user ++ '@' :: dropPasswords steps after
    | none => c :: dropPasswords steps rest

/-- `replace(/^[a-z]+:\/\//i, "")` -/
def dropScheme (text : Text) : Text :=
  let rest := text.dropWhile Char.isAlpha
  if rest.length < text.length ∧ (("://" : Text) <+: rest) then rest.drop 3 else text

section
variable (browser : SidebarBrowser)

def sanitizeTooltipValue (value : Text) : Text :=
  let trimmed := jsTrim value
  if trimmed.isEmpty then []
  else match browser.newUrl trimmed with
    | some parsed => parsed.withoutCredentials
    | none => dropPasswords trimmed.length trimmed

def displayUrlWithoutScheme (rawUrl : Text) : Text :=
  let bare := dropScheme (sanitizeTooltipValue browser rawUrl)
  if bare.getLast? = some '/' then bare.dropLast else bare

def sanitizeHttpRootUrl (rawUrl : Text) : Text :=
  let value := jsTrim rawUrl
  if value.isEmpty then []
  else match browser.newUrl value with
    | some parsed => parsed.root
    | none => orText (((dropScheme value).splitOn '/').headD []) value

def formatEndpointTypeLabel (type : Text) : Text :=
  browser.toUpperCase (type.map fun c => if c = '_' then ' ' else c)

/-- The path and the query of a URL, as `parseHttpPath` reads them. -/
def SidebarBrowser.parseUrl (url : Text) : Option (Text × Text) :=
  (browser.newUrl url).map fun parsed => (parsed.pathname, parsed.search)

structure NonHttpGroupInfo where
  endpointType : Text
  groupKey : Text
  groupLabel : Text
  tooltip : Text
  leafTooltip : Text
  sortTarget : Text

def splitMessagingSegments (value : Text) : List Text :=
  ((value.splitOnP fun c => c = '.' || c = '/').map normalizeSegment).filter fun segment => !segment.isEmpty

def targetKeys : List Text := ["subject", "topic", "queue", "routing_key", "routingKey", "table", "path"]

/-- `String(a || b || ... || "")`, over the properties `keys`. -/
def firstText (config : Record) (keys : List Text) : Text :=
  keys.foldr (fun key rest => Json.textOr rest (config.prop key)) []

def buildNonHttpGroupInfo (endpoint : Record) : NonHttpGroupInfo :=
  let endpointType := EndpointForm.getEndpointType endpoint
  let objectConfig : Record := Json.asObject (endpoint.prop endpointType)
  let safeUrl := sanitizeTooltipValue browser (Json.textOr [] (objectConfig.prop "url"))
  if endpointType = ("mongodb" : Text) then
    let database := jsTrim (Json.textOr [] (objectConfig.prop "database"))
    let collection := jsTrim (Json.textOr [] (objectConfig.prop "collection"))
    let target := ((database ++ '/' :: collection).dropWhile (· = '/')).rdropWhile (· = '/')
    let below := fun part : Text => if part.isEmpty then [] else '/' :: part
    { endpointType := "MONGODB"
      groupKey := ("mongodb:" : Text) ++ safeUrl ++ ':' :: database ++ ':' :: collection
      groupLabel := jsTrim (("MONGODB " : Text) ++ displayUrlWithoutScheme browser safeUrl ++ below database ++ below collection)
      tooltip := safeUrl
      leafTooltip := orText target safeUrl
      sortTarget := database ++ '/' :: collection }
  else
    let target := jsTrim (firstText objectConfig targetKeys)
    let firstSegment := orText ((splitMessagingSegments target).headD []) (orText target "Ungrouped")
    let label := formatEndpointTypeLabel browser endpointType
    { endpointType := label
      groupKey := endpointType ++ ':' :: safeUrl ++ ':' :: firstSegment
      groupLabel := jsTrim (label ++ ' ' :: orText (displayUrlWithoutScheme browser safeUrl) firstSegment)
      tooltip := orText safeUrl target
      leafTooltip := orText target safeUrl
      sortTarget := orText target (orText safeUrl firstSegment) }

structure SidebarBucket (α : Type v) extends GroupBucket α where
  endpointType : Text
  tooltip : Text

/-- A leaf with what it is filed by. -/
inductive Filing (α : Type v)
  | http (rawUrl rawPath : Text) (leaf : MutableGroupLeaf α)
  | other (info : NonHttpGroupInfo) (leaf : MutableGroupLeaf α)

variable {α : Type v}

def Filing.leaf : Filing α → MutableGroupLeaf α
  | .http _ _ leaf => leaf
  | .other _ leaf => leaf

def Filing.create : Filing α → SidebarBucket α
  | .http rawUrl _ _ =>
    { createHttpBucket (sanitizeHttpRootUrl browser) (displayUrlWithoutScheme browser) rawUrl with
      endpointType := "HTTP"
      tooltip := sanitizeHttpRootUrl browser rawUrl }
  | .other info _ =>
    { id := info.groupKey, label := info.groupLabel, leaves := [], pathRoot := none, httpPathSegments := none
      endpointType := info.endpointType, tooltip := info.tooltip }

def Filing.bucketId (filing : Filing α) : Text := (filing.create browser).id

def addToBucket (bucket : SidebarBucket α) : Filing α → SidebarBucket α
  | .http rawUrl rawPath leaf =>
    { bucket with toGroupBucket := addHttpLeafToBucket browser.parseUrl bucket.toGroupBucket rawUrl rawPath leaf }
  | .other _ leaf => { bucket with leaves := bucket.leaves ++ [leaf] }

/-- The map of the buckets, which `getOrCreateBucket` fills. -/
def sidebarBuckets (filings : List (Filing α)) : List (Text × SidebarBucket α) :=
  Grouping.fileAll (Filing.bucketId browser) (Filing.create browser) (addToBucket browser) filings

/-- A node at the top of a tree. -/
inductive SidebarNode (α : Type v)
  | leaf (leaf : α)
  | group (id label endpointType tooltip : Text) (children : List (GroupTreeNode α))

/-- How the leaves of a tree are shown: in a bucket, below a path, and in place of a bucket that shows nothing else. -/
structure LeafForms (α : Type v) where
  toLeafNode : MutableGroupLeaf α → α
  toRelativeHttpLeaf : MutableGroupLeaf α → List Text → α
  collapse : α → SidebarBucket α → α

def bucketNode (forms : LeafForms α) (bucket : SidebarBucket α) : SidebarNode α :=
  let (children, label) :=
    materializeBucketChildren browser.localeCompare forms.toLeafNode forms.toRelativeHttpLeaf bucket.toGroupBucket
  match children with
  | [.leaf leaf] => .leaf (forms.collapse leaf bucket)
  | children => .group bucket.id label bucket.endpointType bucket.tooltip children

/-- The common part of `buildConsumerTree` and `buildPublisherTree`. -/
def buildTree (forms : LeafForms α) (filings : List (Filing α)) : List (SidebarNode α) :=
  (((sidebarBuckets browser filings).map Prod.snd).mergeSort fun left right =>
    (browser.localeCompare left.label right.label).isLE).map (bucketNode browser forms)

/-! ### Publishers -/

/-- `entity.endpoint || {}` -/
def endpointOf (entity : Record) : Record := Json.asObject (entity.prop "endpoint")

/-- `endpoint.http?.[key]` -/
def httpSetting (entity : Record) (key : Text) : Option Json := ((endpointOf entity).prop "http").bind (Json.get? key)

/-- What a request to `path` at `rawUrl` addresses. -/
def fullTarget (rawUrl path : Text) : Text :=
  let baseTarget := displayUrlWithoutScheme browser rawUrl
  if !path.isEmpty ∧ path <:+ baseTarget then baseTarget else baseTarget ++ path

structure PublisherLeafNode where
  id : Text
  label : Text
  publisher : Record
  publisherIndex : Nat
  endpointType : Text
  tooltip : Text

namespace PublisherTree

def httpMethodSortOrder : List Text := ["GET", "POST", "PUT", "PATCH", "DELETE"]

def fallbackLeafId (publisher : Record) (publisherIndex : Nat) : Text :=
  Json.textOr (Json.textOr (ofNat publisherIndex) (publisher.prop "name")) (publisher.prop "id")

def publisherName (publisher : Record) : Text := jsTrim (Json.textOr [] (publisher.prop "name"))

def getPublisherMenuLabel (publisher : Record) (fallback : Text) : Text :=
  let endpoint := endpointOf publisher
  orText (publisherName publisher)
    (jsTrim (orText fallback (browser.getTechnicalDisplayLabel endpoint (EndpointForm.getEndpointType endpoint))))

def getHttpMethod (publisher : Record) : Text := browser.toUpperCase (Json.textOr "POST" (httpSetting publisher "method"))

def buildLeafSortKey (publisher : Record) (endpointType targetSummary : Text) : GroupSortKey where
  manualOrder := some <| match publisher.prop "sort_order" with
    | some (.num order) => (browser.toFinite order).getD 9007199254740991
    | _ => 9007199254740991
  methodOrder := some <|
    if endpointType = ("http" : Text) then (httpMethodSortOrder.idxOf (getHttpMethod browser publisher) : ℚ) else 9007199254740990
  targetSummary := browser.toLowerCase targetSummary
  label := browser.toLowerCase (Json.textOr [] (publisher.prop "name"))

def createHttpLeaf (publisher : Record) (publisherIndex : Nat) (rawUrl path : Text) : MutableGroupLeaf PublisherLeafNode where
  leaf :=
    { id := fallbackLeafId publisher publisherIndex
      label := getPublisherMenuLabel browser publisher (orText (fullTarget browser rawUrl path) "/")
      publisher, publisherIndex
      endpointType := "HTTP"
      tooltip := fullTarget browser rawUrl path }
  sortKey := buildLeafSortKey browser publisher "http" (path ++ '|' :: publisherName publisher)

/-- The text of `publisher.name` in a template. -/
def nameInTemplate (publisher : Record) : Text := ((publisher.prop "name").map Json.toText).getD "undefined"

def createLeaf (publisher : Record) (publisherIndex : Nat) (info : NonHttpGroupInfo) : MutableGroupLeaf PublisherLeafNode where
  leaf :=
    { id := fallbackLeafId publisher publisherIndex
      label := getPublisherMenuLabel browser publisher (orText info.leafTooltip info.sortTarget)
      publisher, publisherIndex
      endpointType := info.endpointType
      tooltip := info.leafTooltip }
  sortKey := buildLeafSortKey browser publisher (EndpointForm.getEndpointType (endpointOf publisher))
    (info.sortTarget ++ '|' :: nameInTemplate publisher)

def toRelativeHttpLeaf (leaf : MutableGroupLeaf PublisherLeafNode) (segments : List Text) : PublisherLeafNode :=
  let publisher := leaf.leaf.publisher
  { leaf.leaf with
    label := getPublisherMenuLabel browser publisher (getHttpMethod browser publisher ++ ' ' :: formatHttpSegments segments) }

def collapseSingleLeaf (leaf : PublisherLeafNode) (bucket : SidebarBucket PublisherLeafNode) : PublisherLeafNode :=
  { leaf with
    label := orText (publisherName leaf.publisher) (orText leaf.tooltip bucket.label)
    tooltip := orText bucket.tooltip leaf.tooltip }

def filing (publisher : Record) (publisherIndex : Nat) : Filing PublisherLeafNode :=
  if EndpointForm.getEndpointType (endpointOf publisher) = ("http" : Text) then
    let rawUrl := Json.textOr [] (httpSetting publisher "url")
    let rawPath := Json.textOr [] (httpSetting publisher "path")
    .http rawUrl rawPath
      (createHttpLeaf browser publisher publisherIndex rawUrl (parseHttpPath browser.parseUrl rawUrl rawPath))
  else
    let info := buildNonHttpGroupInfo browser (endpointOf publisher)
    .other info (createLeaf browser publisher publisherIndex info)

def forms : LeafForms PublisherLeafNode where
  toLeafNode leaf := leaf.leaf
  toRelativeHttpLeaf := toRelativeHttpLeaf browser
  collapse := collapseSingleLeaf

def filings (publishers : List Record) : List (Filing PublisherLeafNode) :=
  publishers.zipIdx.map fun entry => filing browser entry.1 entry.2

end PublisherTree

def buildPublisherTree (publishers : List Record) : List (SidebarNode PublisherLeafNode) :=
  buildTree browser (PublisherTree.forms browser) (PublisherTree.filings browser publishers)

/-! ### Consumers -/

structure ConsumerTreeItem where
  name : Text
  displayName : Text
  statusClass : Text
  messageCount : Nat
  throughputLabel : Text
  originalIndex : Nat
  id : Option Text

structure ConsumerLeafNode where
  id : Text
  label : Text
  consumerIndex : Nat
  endpointType : Text
  statusClass : Text
  messageCount : Nat
  throughputLabel : Text
  tooltip : Text

namespace ConsumerTree

def fallbackLeafId (consumer : Record) (item : ConsumerTreeItem) (consumerIndex : Nat) : Text :=
  orText (item.id.getD [])
    (Json.textOr (Json.textOr (ofNat consumerIndex) (consumer.prop "name")) (consumer.prop "id"))

def getConsumerMenuLabel (consumer : Record) (item : ConsumerTreeItem) (fallback : Text) : Text :=
  let endpoint := endpointOf consumer
  orText (jsTrim (orText item.displayName item.name))
    (jsTrim (orText fallback (browser.getTechnicalDisplayLabel endpoint (EndpointForm.getEndpointType endpoint))))

def createLeaf (consumer : Record) (item : ConsumerTreeItem) (endpointType targetSummary tooltip : Text) :
    MutableGroupLeaf ConsumerLeafNode :=
  let label := getConsumerMenuLabel browser consumer item targetSummary
  { leaf :=
      { id := fallbackLeafId consumer item item.originalIndex
        label, endpointType, tooltip
        consumerIndex := item.originalIndex
        statusClass := item.statusClass
        messageCount := item.messageCount
        throughputLabel := item.throughputLabel }
    sortKey :=
      { manualOrder := none, methodOrder := none
        label := browser.toLowerCase label
        targetSummary := browser.toLowerCase targetSummary } }

def createHttpLeaf (consumer : Record) (item : ConsumerTreeItem) (rawUrl path : Text) : MutableGroupLeaf ConsumerLeafNode :=
  let target := fullTarget browser rawUrl path
  createLeaf browser consumer item "HTTP" (orText target "/") target

def toRelativeHttpLeaf (leaf : MutableGroupLeaf ConsumerLeafNode) (segments : List Text) : ConsumerLeafNode :=
  { leaf.leaf with label := orText leaf.leaf.label (formatHttpSegments segments) }

def filing (consumer : Record) (item : ConsumerTreeItem) : Filing ConsumerLeafNode :=
  if EndpointForm.getEndpointType (endpointOf consumer) = ("http" : Text) then
    let rawUrl := Json.textOr [] (httpSetting consumer "url")
    let rawPath := Json.textOr [] (httpSetting consumer "path")
    .http rawUrl rawPath (createHttpLeaf browser consumer item rawUrl (parseHttpPath browser.parseUrl rawUrl rawPath))
  else
    let info := buildNonHttpGroupInfo browser (endpointOf consumer)
    .other info (createLeaf browser consumer item info.endpointType info.sortTarget info.leafTooltip)

def forms : LeafForms ConsumerLeafNode where
  toLeafNode leaf := leaf.leaf
  toRelativeHttpLeaf := toRelativeHttpLeaf
  collapse leaf bucket := { leaf with tooltip := orText bucket.tooltip leaf.tooltip }

/-- The consumers with their items, where the last item of an index counts. -/
def shownItems (consumers : List Record) (items : List ConsumerTreeItem) : List (Record × ConsumerTreeItem) :=
  let itemByIndex := (items.map fun item => (item.originalIndex, item)).reverse
  consumers.zipIdx.filterMap fun entry => (itemByIndex.lookup entry.2).map fun item => (entry.1, item)

def filings (consumers : List Record) (items : List ConsumerTreeItem) : List (Filing ConsumerLeafNode) :=
  (shownItems consumers items).map fun entry => filing browser entry.1 entry.2

end ConsumerTree

def buildConsumerTree (consumers : List Record) (items : List ConsumerTreeItem) : List (SidebarNode ConsumerLeafNode) :=
  buildTree browser ConsumerTree.forms (ConsumerTree.filings browser consumers items)

structure ConsumerPanel where
  statusClass : Record → Text
  messageCount : Record → Nat
  throughputLabel : Record → Text

/-- `inputProto`, the label of the kind, is not read by the tree. -/
def sidebarItem (panel : ConsumerPanel) (consumer : Record) (index : Nat) : ConsumerTreeItem :=
  let name := Json.textOr [] (consumer.prop "name")
  let endpoint := endpointOf consumer
  { name
    displayName := orText (jsTrim name)
      (browser.getTechnicalDisplayLabel endpoint (EndpointForm.getEndpointType endpoint))
    statusClass := panel.statusClass consumer
    messageCount := panel.messageCount consumer
    throughputLabel := panel.throughputLabel consumer
    originalIndex := index
    id := (consumer.prop "id").map Json.toText }

def buildSidebarItems (panel : ConsumerPanel) (consumers : List Record) : List ConsumerTreeItem :=
  consumers.zipIdx.map fun entry => sidebarItem browser panel entry.1 entry.2

def buildGroupedSidebarItems (panel : ConsumerPanel) (consumers : List Record) : List (SidebarNode ConsumerLeafNode) :=
  buildConsumerTree browser consumers (buildSidebarItems browser panel consumers)

/-! ### What a node shows -/

namespace SidebarNode

def leaves : SidebarNode α → List α
  | .leaf shown => [shown]
  | .group _ _ _ _ children => allShownLeaves children

/-- The groups of a node, itself included, each with its id and children. -/
def groups : SidebarNode α → List (Text × List (GroupTreeNode α))
  | .leaf _ => []
  | .group id _ _ _ children => (id, children) :: allGroups children

/-- The first group of a node has the id of its bucket and the others ids of their own below it. None is empty. -/
structure Sound (id : Text) (node : SidebarNode α) : Prop where
  distinct : (node.groups.map Prod.fst).Nodup
  full : ∀ group ∈ node.groups, group.2 ≠ []
  named : ∀ group ∈ node.groups.head?, group.1 = id
  under : ∀ group ∈ node.groups, group.1 = id ∨ (id ++ (":path:" : Text)) <+: group.1

end SidebarNode

/-- What `key` reads of a leaf is shown, however the leaf is. -/
structure LeafForms.Keeps {γ : Type*} (forms : LeafForms α) (key : α → γ) : Prop where
  leaf : ∀ leaf, key (forms.toLeafNode leaf) = key leaf.leaf
  relative : ∀ leaf segments, key (forms.toRelativeHttpLeaf leaf segments) = key leaf.leaf
  collapse : ∀ leaf bucket, key (forms.collapse leaf bucket) = key leaf

def Filing.isHttp : Filing α → Bool
  | .http .. => true
  | .other .. => false

def Filing.inserted : Filing α → InsertedLeaf α
  | .http rawUrl rawPath leaf => ⟨rawUrl, rawPath, leaf⟩
  | .other _ leaf => ⟨[], [], leaf⟩

/-- Requests to HTTP servers have buckets apart from everything else. -/
def Apart (filings : List (Filing α)) : Prop :=
  ∀ filing ∈ filings, ∀ other ∈ filings, filing.bucketId browser = other.bucketId browser → filing.isHttp = other.isHttp

variable {browser} {forms : LeafForms α} {γ : Type*} {key : α → γ}

/-- The bucket of a server shows what was inserted into its trie. -/
theorem shown_of_holds {bucket : GroupBucket α} {insertions : List (InsertedLeaf α)} {parseUrl : Text → Option (Text × Text)}
    (localeCompare : Text → Text → Ordering) (keeps : forms.Keeps key) (holds : BucketHolds parseUrl bucket insertions)
    (some_ : insertions ≠ []) :
    let children := (materializeBucketChildren localeCompare forms.toLeafNode forms.toRelativeHttpLeaf bucket).1
    ((allShownLeaves children).map key).Perm (insertions.map fun insertion => key insertion.leaf.leaf) ∧
      ∃ path, GroupsUnder bucket.id path children := by
  intro children
  obtain ⟨⟨root, rooted, grown, held⟩, paths⟩ := holds
  let shared := commonPathPrefix (insertions.map (segmentsOf parseUrl))
  have full : contents root ≠ [] := fun empty => some_ (by simpa [empty] using held)
  have common : ∀ entry ∈ contents root, shared <+: entry.1 := by
    intro entry member
    obtain ⟨insertion, inside, rfl⟩ := List.mem_map.mp (held.subset member)
    exact commonPathPrefix_prefix (List.mem_map_of_mem inside)
  have valid : ∀ segment ∈ shared, IsSegment segment := by
    obtain ⟨entry, member⟩ := List.exists_mem_of_ne_nil _ full
    obtain ⟨insertion, -, rfl⟩ := List.mem_map.mp (held.subset member)
    exact fun segment inside => isSegment_of_mem ((common _ member).subset inside)
  obtain ⟨reached, left⟩ := nodeForPathPrefixFrom_spec root shared [] root grown full common
  rw [← nodeForPathPrefix] at reached left
  rw [List.nil_append] at reached
  have shown : children =
      materializeHttpNodes localeCompare bucket.id forms.toRelativeHttpLeaf (nodeForPathPrefix root shared) [] := by
    simp only [children, materializeBucketChildren, rooted, paths, Option.isSome_some, if_true, Option.getD_some, shared]
  have below : contents (nodeForPathPrefix root shared) ≠ [] := fun empty => full (by rw [left, empty, List.map_nil])
  rw [shown]
  refine ⟨((shownLeaves_materialize _ _ _ _ []).map key).trans ?_, shared ++ [],
    groupsUnder_materialize localeCompare bucket.id forms.toRelativeHttpLeaf _ shared [] (by rwa [List.append_nil])
      (by rwa [List.append_nil]) below⟩
  have keys := held.map fun entry => key entry.2.leaf
  rw [left, List.map_map, List.map_map] at keys
  rw [relativeLeaves, List.map_map]
  simpa [Function.comp_def, keeps.relative] using keys

theorem bucketNode_leaves (keeps : forms.Keeps key) (bucket : SidebarBucket α) :
    (bucketNode browser forms bucket).leaves.map key = (allShownLeaves (materializeBucketChildren browser.localeCompare
      forms.toLeafNode forms.toRelativeHttpLeaf bucket.toGroupBucket).1).map key := by
  unfold bucketNode
  dsimp only
  split
  next leaf one => simp [one, SidebarNode.leaves, allShownLeaves, shownLeaves, keeps.collapse]
  next => rfl

/-- A node is sound when the groups of its children are, and lie below its bucket. -/
theorem bucketNode_sound {bucket : SidebarBucket α} {path : List Text}
    (some_ : (allShownLeaves (materializeBucketChildren browser.localeCompare forms.toLeafNode forms.toRelativeHttpLeaf
      bucket.toGroupBucket).1) ≠ [])
    (groups : GroupsUnder bucket.id path (materializeBucketChildren browser.localeCompare forms.toLeafNode
      forms.toRelativeHttpLeaf bucket.toGroupBucket).1) :
    (bucketNode browser forms bucket).Sound bucket.id := by
  unfold bucketNode
  dsimp only
  split
  next =>
    exact
      { distinct := List.nodup_nil
        full := List.forall_mem_nil _
        named := fun group gone => absurd gone (Option.not_mem_none group)
        under := List.forall_mem_nil _ }
  next =>
    refine ⟨List.nodup_cons.mpr ⟨fun taken => ?_, groups.distinct⟩, List.forall_mem_cons.mpr ⟨fun empty => ?_, groups.full⟩,
      fun group first => ?_, List.forall_mem_cons.mpr ⟨.inl rfl, fun group member => .inr ?_⟩⟩
    · obtain ⟨group, member, same⟩ := List.mem_map.mp taken
      obtain ⟨below, -, -, named⟩ := groups.under group member
      have lengths := congrArg List.length (named.symm.trans same)
      have mark : (":path:" : Text).length = 6 := rfl
      rw [groupId, List.length_append, List.length_append, mark] at lengths
      dsimp only at lengths
      omega
    · dsimp only at empty
      rw [empty] at some_
      exact some_ rfl
    · obtain rfl := Option.some.inj first
      rfl
    · obtain ⟨below, -, -, named⟩ := groups.under group member
      exact ⟨_, named.symm⟩

theorem foldl_http {filings : List (Filing α)} (http : ∀ filing ∈ filings, filing.isHttp = true) (bucket : SidebarBucket α) :
    (filings.foldl (addToBucket browser) bucket).toGroupBucket =
      insertLeaves browser.parseUrl bucket.toGroupBucket (filings.map Filing.inserted) := by
  induction filings generalizing bucket with
  | nil => rfl
  | cons filing filings ih =>
    have rest := ih (fun other member => http other (.tail _ member)) (addToBucket browser bucket filing)
    cases filing with
    | http rawUrl rawPath leaf => exact rest
    | other info leaf => exact absurd (http _ (.head _)) Bool.false_ne_true

theorem foldl_other {filings : List (Filing α)} (other : ∀ filing ∈ filings, filing.isHttp = false)
    (bucket : SidebarBucket α) :
    filings.foldl (addToBucket browser) bucket = { bucket with leaves := bucket.leaves ++ filings.map Filing.leaf } := by
  induction filings generalizing bucket with
  | nil => simp
  | cons filing filings ih =>
    have rest := ih (fun another member => other another (.tail _ member)) (addToBucket browser bucket filing)
    cases filing with
    | http rawUrl rawPath leaf => exact absurd (other _ (.head _)).symm Bool.false_ne_true
    | other info leaf =>
      rw [List.foldl_cons, rest]
      simp [addToBucket, Filing.leaf]

theorem foldl_id (filings : List (Filing α)) (bucket : SidebarBucket α) :
    (filings.foldl (addToBucket browser) bucket).id = bucket.id := by
  induction filings generalizing bucket with
  | nil => rfl
  | cons filing filings ih =>
    rw [List.foldl_cons, ih]
    cases filing <;> rfl

theorem allShownLeaves_leaves (shown : MutableGroupLeaf α → α) (leaves : List (MutableGroupLeaf α)) :
    allShownLeaves (leaves.map fun leaf => GroupTreeNode.leaf (shown leaf)) = leaves.map shown := by
  rw [allShownLeaves_eq, List.flatMap_map]
  exact List.map_eq_flatMap.symm

/-- A bucket shows what was filed into it, in groups that are sound. -/
theorem bucket_shows (keeps : forms.Keeps key) {filings : List (Filing α)} {first : Filing α} (first_mem : first ∈ filings)
    (alike : ∀ filing ∈ filings, filing.isHttp = first.isHttp) :
    let node := bucketNode browser forms (filings.foldl (addToBucket browser) (first.create browser))
    (node.leaves.map key).Perm (filings.map fun filing => key filing.leaf.leaf) ∧ node.Sound (first.bucketId browser) := by
  intro node
  have filed : (filings.foldl (addToBucket browser) (first.create browser)).id = first.bucketId browser := foldl_id ..
  have some_ : filings ≠ [] := List.ne_nil_of_mem first_mem
  suffices shows : ∃ path, ((allShownLeaves (materializeBucketChildren browser.localeCompare forms.toLeafNode
        forms.toRelativeHttpLeaf (filings.foldl (addToBucket browser) (first.create browser)).toGroupBucket).1).map key).Perm
        (filings.map fun filing => key filing.leaf.leaf) ∧
      GroupsUnder (filings.foldl (addToBucket browser) (first.create browser)).id path (materializeBucketChildren
        browser.localeCompare forms.toLeafNode forms.toRelativeHttpLeaf
        (filings.foldl (addToBucket browser) (first.create browser)).toGroupBucket).1 by
    obtain ⟨path, shown, groups⟩ := shows
    refine ⟨by rwa [bucketNode_leaves keeps], filed ▸ bucketNode_sound (fun empty => some_ ?_) groups⟩
    rw [empty] at shown
    exact List.map_eq_nil_iff.mp shown.symm.eq_nil
  cases first with
  | http rawUrl rawPath leaf =>
    have created : BucketHolds browser.parseUrl (Filing.create browser (.http rawUrl rawPath leaf)).toGroupBucket [] :=
      ⟨⟨_, rfl, grown_create [] [], by simp [contents, createPathTrieNode, contentsOfAll]⟩, rfl⟩
    have holds := holds_insertLeaves (filings.map Filing.inserted) created
    rw [List.nil_append, ← foldl_http alike] at holds
    obtain ⟨shown, path, groups⟩ := shown_of_holds browser.localeCompare keeps holds (by simpa using some_)
    refine ⟨path, shown.trans (.of_eq ?_), groups⟩
    rw [List.map_map]
    refine List.map_congr_left fun filing _ => ?_
    cases filing <;> rfl
  | other info leaf =>
    rw [foldl_other alike]
    refine ⟨[], ?_, groupsUnder_of_none ?_⟩
    · simp only [materializeBucketChildren, Filing.create, allShownLeaves_leaves, List.nil_append]
      rw [List.map_map]
      refine (((List.mergeSort_perm _ _).map _)).trans (.of_eq ?_)
      rw [List.map_map]
      exact List.map_congr_left fun filing _ => keeps.leaf filing.leaf
    · simp only [materializeBucketChildren, Filing.create]
      rw [allGroups_eq, List.flatMap_map]
      exact List.flatMap_eq_nil_iff.mpr fun leaf _ => rfl

/-! ### The whole tree -/

/-- The nodes show what was filed under `ids`, one node for each. -/
def ShowsBuckets (browser : SidebarBrowser) (key : α → γ) (filings : List (Filing α)) (ids : List Text)
    (tree : List (SidebarNode α)) : Prop :=
  List.Forall₂ (fun id node => (node.leaves.map key).Perm
    ((Grouping.filed (Filing.bucketId browser) id filings).map fun filing => key filing.leaf.leaf) ∧ node.Sound id) ids tree

theorem buildTree_shows (keeps : forms.Keeps key) {filings : List (Filing α)} (apart : Apart browser filings) :
    ∃ ids : List Text, ids.Nodup ∧ (∀ id, id ∈ ids ↔ id ∈ filings.map (Filing.bucketId browser)) ∧
      ShowsBuckets browser key filings ids (buildTree browser forms filings) := by
  have holds := Grouping.holds_fileAll (Filing.bucketId browser) (Filing.create browser) (addToBucket browser) filings
  let sorted := (sidebarBuckets browser filings).mergeSort fun left right =>
    (browser.localeCompare left.2.label right.2.label).isLE
  have perm : sorted.Perm (sidebarBuckets browser filings) := List.mergeSort_perm _ _
  have same : sorted.map Prod.snd = ((sidebarBuckets browser filings).map Prod.snd).mergeSort fun left right =>
      (browser.localeCompare left.label right.label).isLE := List.map_mergeSort fun _ _ _ _ => rfl
  refine ⟨sorted.map Prod.fst, holds.distinct.perm (perm.map _).symm,
    fun id => (perm.map Prod.fst).mem_iff.trans (holds.keys id), ?_⟩
  rw [ShowsBuckets, buildTree, ← same, List.map_map, List.forall₂_map_left_iff, List.forall₂_map_right_iff,
    List.forall₂_same]
  intro group member
  obtain ⟨first, first_mem, named, contents⟩ := holds.held group (perm.subset member)
  dsimp only [Function.comp_apply]
  rw [contents]
  rw [← named]
  refine bucket_shows keeps (List.mem_filter.mpr ⟨first_mem, decide_eq_true rfl⟩) fun filing inside => ?_
  obtain ⟨filing_mem, filing_key⟩ := List.mem_filter.mp inside
  exact apart filing filing_mem first first_mem (of_decide_eq_true filing_key)

theorem leaves_of_shows {filings : List (Filing α)} {ids : List Text} {tree : List (SidebarNode α)} (distinct : ids.Nodup)
    (all : ∀ id, id ∈ ids ↔ id ∈ filings.map (Filing.bucketId browser)) (shows : ShowsBuckets browser key filings ids tree) :
    ((tree.flatMap SidebarNode.leaves).map key).Perm (filings.map fun filing => key filing.leaf.leaf) := by
  have gathered : ((tree.flatMap SidebarNode.leaves).map key).Perm
      ((ids.flatMap fun id => Grouping.filed (Filing.bucketId browser) id filings).map fun filing => key filing.leaf.leaf) := by
    clear distinct all
    induction shows with
    | nil => exact .refl _
    | cons here _ ih =>
      simp only [List.flatMap_cons, List.map_append]
      exact here.1.append ih
  refine gathered.trans ((Grouping.filed_perm distinct fun filing member => ?_).map _)
  exact (all _).mpr (List.mem_map_of_mem member)

theorem marked_of_front {start text : Text} (prefixed : (start ++ (":path:" : Text)) <+: text) :
    (":path" : Text) <:+: text := by
  have inside : (":path" : Text) <:+: start ++ (":path:" : Text) := by
    refine ⟨start, [':'], ?_⟩
    rw [List.append_assoc]
    rfl
  exact inside.trans prefixed.isInfix

theorem marked_of_overlap {rest : Text} (both : (":path:" : Text) <+: rest ++ (":path:" : Text)) :
    rest = [] ∨ (":path" : Text) <:+: rest := by
  have spelled : (":path:" : Text) = [':', 'p', 'a', 't', 'h', ':'] := rfl
  rw [spelled] at both
  rcases rest with _ | ⟨a, _ | ⟨b, _ | ⟨c, _ | ⟨d, _ | ⟨e, rest⟩⟩⟩⟩⟩
  · exact .inl rfl
  all_goals simp only [List.cons_append, List.nil_append, List.cons_prefix_cons] at both
  · exact absurd both.2.1 (by decide)
  · exact absurd both.2.2.1 (by decide)
  · exact absurd both.2.2.2.1 (by decide)
  · exact absurd both.2.2.2.2.1 (by decide)
  · obtain ⟨rfl, rfl, rfl, rfl, rfl, -⟩ := both
    exact .inr ⟨[], rest, rfl⟩

/-- Two buckets whose ids name no path have no group of one id. -/
theorem bucket_of_groupId {id other text : Text} (plain : ¬(":path" : Text) <:+: id) (plainOther : ¬(":path" : Text) <:+: other)
    (here : text = id ∨ (id ++ (":path:" : Text)) <+: text) (there : text = other ∨ (other ++ (":path:" : Text)) <+: text) :
    id = other := by
  have shorter : ∀ {short long : Text}, ¬(":path" : Text) <:+: long → (short ++ (":path:" : Text)) <+: text →
      (long ++ (":path:" : Text)) <+: text → short.length ≤ long.length → short = long := by
    intro short long unmarked first second le
    obtain ⟨rest, rfl⟩ : short <+: long := List.prefix_of_prefix_length_le ((List.prefix_append ..).trans first)
      ((List.prefix_append ..).trans second) le
    have both : (short ++ (":path:" : Text)) <+: (short ++ rest ++ (":path:" : Text)) :=
      List.prefix_of_prefix_length_le first second (by simp)
    rw [List.append_assoc, List.prefix_append_right_inj] at both
    rcases marked_of_overlap both with rfl | marked
    · exact (List.append_nil short).symm
    · exact absurd (marked.trans (List.suffix_append short rest).isInfix) unmarked
  rcases here with rfl | first <;> rcases there with same | second
  · exact same
  · exact absurd (marked_of_front second) plain
  · exact absurd (marked_of_front (same ▸ first)) plainOther
  · rcases Nat.le_total id.length other.length with le | le
    · exact shorter plainOther first second le
    · exact (shorter plain second first le).symm

/-- Groups of one id are in one node, where no id of a bucket names a path. -/
theorem groups_distinct {ids : List Text} {tree : List (SidebarNode α)} (distinct : ids.Nodup)
    (sound : List.Forall₂ (fun id node => node.Sound id) ids tree) (plain : ∀ id ∈ ids, ¬(":path" : Text) <:+: id) :
    ((tree.flatMap SidebarNode.groups).map Prod.fst).Nodup := by
  have found : ∀ {ids : List Text} {tree : List (SidebarNode α)}, List.Forall₂ (fun id node => node.Sound id) ids tree →
      ∀ name ∈ (tree.flatMap SidebarNode.groups).map Prod.fst, ∃ id ∈ ids, name = id ∨ (id ++ (":path:" : Text)) <+: name := by
    intro ids tree sound name member
    induction sound with
    | nil => cases member
    | @cons id node _ _ here _ ih =>
      rw [List.flatMap_cons, List.map_append, List.mem_append] at member
      rcases member with own | later
      · obtain ⟨group, inside, rfl⟩ := List.mem_map.mp own
        exact ⟨id, List.mem_cons_self, here.under group inside⟩
      · obtain ⟨other, inside, under⟩ := ih later
        exact ⟨other, List.mem_cons_of_mem _ inside, under⟩
  induction sound with
  | nil => exact List.nodup_nil
  | @cons id node ids tree here rest ih =>
    rw [List.nodup_cons] at distinct
    rw [List.forall_mem_cons] at plain
    rw [List.flatMap_cons, List.map_append, List.nodup_append]
    refine ⟨here.distinct, ih distinct.2 plain.2, fun name own other later same => ?_⟩
    obtain ⟨group, inside, rfl⟩ := List.mem_map.mp own
    obtain ⟨bucket, among, under⟩ := found rest other later
    rw [← same] at under
    exact distinct.1 (bucket_of_groupId plain.1 (plain.2 bucket among) (here.under group inside) under ▸ among)

theorem groupKey_eq (endpoint : Record) :
    ∃ rest, (buildNonHttpGroupInfo browser endpoint).groupKey = EndpointForm.getEndpointType endpoint ++ ':' :: rest := by
  unfold buildNonHttpGroupInfo
  dsimp only
  split
  next mongodb => exact ⟨_, by rw [mongodb, List.append_assoc]; rfl⟩
  next => exact ⟨_, List.append_assoc ..⟩

/-- An endpoint of another kind than HTTP is not filed under a server, since no kind has a colon. -/
theorem groupKey_ne_http {endpoint : Record} (plain : ':' ∉ EndpointForm.getEndpointType endpoint)
    (other : EndpointForm.getEndpointType endpoint ≠ "http") (rest : Text) :
    (buildNonHttpGroupInfo browser endpoint).groupKey ≠ ("http" : Text) ++ ':' :: rest := by
  intro same
  obtain ⟨more, key⟩ := @groupKey_eq browser endpoint
  rw [key] at same
  have parts := (splitOnce_append plain).symm.trans ((congrArg (splitOnce ':') same).trans
    (splitOnce_append (a := ("http" : Text)) (by decide)))
  exact other (congrArg Prod.fst (Option.some.inj parts))

/-- Filings by the kind of an endpoint, as both trees make them. -/
def FiledByKind (browser : SidebarBrowser) (endpoint : Record) (filing : Filing α) : Prop :=
  ∃ rawUrl rawPath leaf, filing =
    if EndpointForm.getEndpointType endpoint = ("http" : Text) then .http rawUrl rawPath leaf
    else .other (buildNonHttpGroupInfo browser endpoint) leaf

theorem apart_of_kinds {filings : List (Filing α)}
    (kinds : ∀ filing ∈ filings, ∃ endpoint, ':' ∉ EndpointForm.getEndpointType endpoint ∧
      FiledByKind browser endpoint filing) : Apart browser filings := by
  intro filing filing_mem other other_mem same
  obtain ⟨endpoint, plain, rawUrl, rawPath, leaf, rfl⟩ := kinds filing filing_mem
  obtain ⟨endpoint', plain', rawUrl', rawPath', leaf', rfl⟩ := kinds other other_mem
  by_cases http : EndpointForm.getEndpointType endpoint = ("http" : Text) <;>
    by_cases http' : EndpointForm.getEndpointType endpoint' = ("http" : Text)
  · rw [if_pos http, if_pos http']
    rfl
  · rw [if_pos http, if_neg http'] at same
    exact absurd same.symm (groupKey_ne_http plain' http' _)
  · rw [if_neg http, if_pos http'] at same
    exact absurd same (groupKey_ne_http plain http _)
  · rw [if_neg http, if_neg http']
    rfl

/-! ### The two trees -/

/-- A tree shows each of `entries` once, in one node for each bucket that there is an entry of. A node that is a group has
the id of its bucket, and all groups have ids of their own where no bucket is named like a path below another one. -/
structure ShowsEach {ι : Type*} (tree : List (SidebarNode α)) (key : α → γ) (entries : List ι) (bucketOf : ι → Text)
    (read : ι → γ) : Prop where
  once : ((tree.flatMap SidebarNode.leaves).map key).Perm (entries.map read)
  together : ∃ ids : List Text, ids.Nodup ∧ List.Forall₂ (fun id node =>
    (node.leaves.map key).Perm ((entries.filter fun entry => bucketOf entry = id).map read) ∧ node.Sound id) ids tree
  distinct : (∀ entry ∈ entries, ¬(":path" : Text) <:+: bucketOf entry) →
    ((tree.flatMap SidebarNode.groups).map Prod.fst).Nodup

theorem showsEach_of_filings {ι : Type*} (keeps : forms.Keeps key) {entries : List ι} {filingOf : ι → Filing α}
    {bucketOf : ι → Text} {read : ι → γ} (apart : Apart browser (entries.map filingOf))
    (buckets : ∀ entry, (filingOf entry).bucketId browser = bucketOf entry)
    (reads : ∀ entry, key (filingOf entry).leaf.leaf = read entry) :
    ShowsEach (buildTree browser forms (entries.map filingOf)) key entries bucketOf read := by
  obtain ⟨ids, distinct, all, shows⟩ := buildTree_shows keeps apart
  refine ⟨(leaves_of_shows distinct all shows).trans (.of_eq ?_), ⟨ids, distinct, shows.imp fun id node here => ?_⟩,
    fun plain => groups_distinct distinct (shows.imp fun id node here => here.2) fun id member => ?_⟩
  · rw [List.map_map]
    exact List.map_congr_left fun entry _ => reads entry
  · refine ⟨here.1.trans (.of_eq ?_), here.2⟩
    rw [Grouping.filed, List.filter_map, List.map_map]
    simp only [Function.comp_def, buckets, reads]
  · obtain ⟨filing, filed, rfl⟩ := List.mem_map.mp ((all id).mp member)
    obtain ⟨entry, inside, rfl⟩ := List.mem_map.mp filed
    rw [buckets]
    exact plain entry inside

theorem publisher_filing (publisher : Record) (index : Nat) :
    FiledByKind browser (endpointOf publisher) (PublisherTree.filing browser publisher index) := by
  by_cases http : EndpointForm.getEndpointType (endpointOf publisher) = ("http" : Text)
  · exact ⟨_, _, _, (if_pos http).trans (if_pos http).symm⟩
  · exact ⟨[], [], _, (if_neg http).trans (if_neg http).symm⟩

theorem consumer_filing (consumer : Record) (item : ConsumerTreeItem) :
    FiledByKind browser (endpointOf consumer) (ConsumerTree.filing browser consumer item) := by
  by_cases http : EndpointForm.getEndpointType (endpointOf consumer) = ("http" : Text)
  · exact ⟨_, _, _, (if_pos http).trans (if_pos http).symm⟩
  · exact ⟨[], [], _, (if_neg http).trans (if_neg http).symm⟩

def sidebarBucketOf (browser : SidebarBrowser) (entity : Record) : Text :=
  let endpoint := endpointOf entity
  if EndpointForm.getEndpointType endpoint = ("http" : Text) then
    (createHttpBucket (α := Unit) (sanitizeHttpRootUrl browser) (displayUrlWithoutScheme browser)
      (Json.textOr [] (httpSetting entity "url"))).id
  else (buildNonHttpGroupInfo browser endpoint).groupKey

theorem publisher_bucketId (publisher : Record) (index : Nat) :
    (PublisherTree.filing browser publisher index).bucketId browser = sidebarBucketOf browser publisher := by
  unfold sidebarBucketOf PublisherTree.filing
  dsimp only
  split <;> rfl

theorem consumer_bucketId (consumer : Record) (item : ConsumerTreeItem) :
    (ConsumerTree.filing browser consumer item).bucketId browser = sidebarBucketOf browser consumer := by
  unfold sidebarBucketOf ConsumerTree.filing
  dsimp only
  split <;> rfl

theorem publisher_filing_leaf (publisher : Record) (index : Nat) :
    (PublisherTree.filing browser publisher index).leaf.leaf.publisher = publisher ∧
      (PublisherTree.filing browser publisher index).leaf.leaf.publisherIndex = index := by
  unfold PublisherTree.filing
  dsimp only
  split <;> exact ⟨rfl, rfl⟩

def ConsumerLeafNode.shown (leaf : ConsumerLeafNode) : Nat × Text × Nat × Text :=
  (leaf.consumerIndex, leaf.statusClass, leaf.messageCount, leaf.throughputLabel)

def ConsumerTreeItem.shown (item : ConsumerTreeItem) : Nat × Text × Nat × Text :=
  (item.originalIndex, item.statusClass, item.messageCount, item.throughputLabel)

theorem consumer_filing_leaf (consumer : Record) (item : ConsumerTreeItem) :
    (ConsumerTree.filing browser consumer item).leaf.leaf.shown = item.shown := by
  unfold ConsumerTree.filing
  dsimp only
  split <;> rfl

theorem consumerTree_shows {consumers : List Record} (items : List ConsumerTreeItem)
    (kinds : ∀ consumer ∈ consumers, ':' ∉ EndpointForm.getEndpointType (endpointOf consumer)) :
    ShowsEach (buildConsumerTree browser consumers items) ConsumerLeafNode.shown (ConsumerTree.shownItems consumers items)
      (fun entry => sidebarBucketOf browser entry.1) fun entry => entry.2.shown := by
  refine showsEach_of_filings ⟨fun _ => rfl, fun _ _ => rfl, fun _ _ => rfl⟩ (apart_of_kinds fun filing member => ?_)
    (fun entry => consumer_bucketId entry.1 entry.2) fun entry => consumer_filing_leaf entry.1 entry.2
  obtain ⟨entry, entry_mem, rfl⟩ := List.mem_map.mp member
  obtain ⟨indexed, indexed_mem, found⟩ := List.mem_filterMap.mp entry_mem
  obtain ⟨item, -, rfl⟩ := Option.map_eq_some_iff.mp found
  have consumer_mem : indexed.1 ∈ consumers := (List.mem_zipIdx' indexed_mem).2 ▸ List.getElem_mem _
  exact ⟨_, kinds _ consumer_mem, consumer_filing ..⟩

/-- A browser for texts of ASCII letters, none of which is a URL. -/
def plainSidebar : SidebarBrowser where
  toLowerCase := toAsciiLowercase
  toUpperCase := toAsciiUppercase
  localeCompare left right := compareOfLessAndEq left right
  newUrl _ := none
  toFinite _ := none
  getTechnicalDisplayLabel _ kind := toAsciiUppercase kind

def twoServers : List Record :=
  [[("name", .str "list"), ("endpoint", .obj [("http", .obj [("path", .str "/orders")])])],
    [("name", .str "send"), ("endpoint", .obj [("kafka", .obj [("topic", .str "orders.new")])])],
    [("name", .str "open"), ("endpoint", .obj [("http", .obj [("path", .str "/orders/1")])])]]

/-- The sidebar shows each publisher once, with its own index, and two publishers below one node if they are of one
server or target. -/
theorem publishers_shown_once (browser : SidebarBrowser) (publishers : List Record)
    (kinds : ∀ publisher ∈ publishers, ':' ∉ EndpointForm.getEndpointType (endpointOf publisher)) :
    ShowsEach (buildPublisherTree browser publishers) (fun leaf => (leaf.publisher, leaf.publisherIndex)) publishers.zipIdx
      (fun entry => sidebarBucketOf browser entry.1) id := by
  refine showsEach_of_filings ⟨fun _ => rfl, fun _ _ => rfl, fun _ _ => rfl⟩ (apart_of_kinds fun filing member => ?_)
    (fun entry => publisher_bucketId entry.1 entry.2) fun entry => ?_
  · obtain ⟨entry, entry_mem, rfl⟩ := List.mem_map.mp member
    have publisher_mem : entry.1 ∈ publishers := (List.mem_zipIdx' entry_mem).2 ▸ List.getElem_mem _
    exact ⟨_, kinds _ publisher_mem, publisher_filing ..⟩
  · have shown := @publisher_filing_leaf browser entry.1 entry.2
    rw [shown.1, shown.2]
    rfl

theorem publishers_shown_once_two :
    ShowsEach (buildPublisherTree plainSidebar twoServers) (fun leaf => (leaf.publisher, leaf.publisherIndex)) twoServers.zipIdx
      (fun entry => sidebarBucketOf plainSidebar entry.1) id :=
  publishers_shown_once plainSidebar twoServers (by decide)

theorem ShowsEach.map {ι κ : Type*} {tree : List (SidebarNode α)} {entries : List ι} {made : ι → κ} {bucketOf : κ → Text}
    {read : κ → γ} (shows : ShowsEach tree key (entries.map made) bucketOf read) :
    ShowsEach tree key entries (bucketOf ∘ made) (read ∘ made) := by
  obtain ⟨once, ⟨ids, distinct, together⟩, apart⟩ := shows
  rw [List.map_map] at once
  refine ⟨once, ⟨ids, distinct, together.imp ?_⟩, fun plain => apart ?_⟩
  · intro id node here
    have shown := here.1
    rw [List.filter_map, List.map_map] at shown
    exact ⟨shown, here.2⟩
  · intro _ member
    obtain ⟨entry, inside, rfl⟩ := List.mem_map.mp member
    exact plain entry inside

/-- The panel makes an item for each consumer. -/
theorem shownItems_sidebarItems (panel : ConsumerPanel) (consumers : List Record) :
    ConsumerTree.shownItems consumers (buildSidebarItems browser panel consumers) =
      consumers.zipIdx.map fun entry => (entry.1, sidebarItem browser panel entry.1 entry.2) := by
  have pairs : (buildSidebarItems browser panel consumers).map (fun item => (item.originalIndex, item)) =
      consumers.zipIdx.map fun entry => (entry.2, sidebarItem browser panel entry.1 entry.2) := by
    rw [buildSidebarItems, List.map_map]
    rfl
  have distinct : ((consumers.zipIdx.map fun entry =>
      (entry.2, sidebarItem browser panel entry.1 entry.2)).map Prod.fst).Nodup := by
    rw [List.map_map]
    change (consumers.zipIdx.map Prod.snd).Nodup
    rw [List.zipIdx_map_snd]
    exact List.nodup_range'
  unfold ConsumerTree.shownItems
  dsimp only
  rw [pairs]
  refine (List.filterMap_congr fun entry member => ?_).trans (congrFun List.filterMap_eq_map _)
  rw [Assoc.lookup_reverse distinct, Assoc.lookup_of_mem distinct (List.mem_map_of_mem member)]
  rfl

/-- The sidebar shows each consumer once, with its own index, status, count and rate, and two consumers below one node
if they are of one server or target. -/
theorem consumers_shown_once (browser : SidebarBrowser) (panel : ConsumerPanel) (consumers : List Record)
    (kinds : ∀ consumer ∈ consumers, ':' ∉ EndpointForm.getEndpointType (endpointOf consumer)) :
    ShowsEach (buildGroupedSidebarItems browser panel consumers) ConsumerLeafNode.shown consumers.zipIdx
      (fun entry => sidebarBucketOf browser entry.1) fun entry =>
        (entry.2, panel.statusClass entry.1, panel.messageCount entry.1, panel.throughputLabel entry.1) := by
  have shows := @consumerTree_shows browser consumers (buildSidebarItems browser panel consumers) kinds
  rw [shownItems_sidebarItems] at shows
  exact shows.map

def idlePanel : ConsumerPanel where
  statusClass _ := "status-stopped"
  messageCount _ := 0
  throughputLabel _ := []

theorem consumers_shown_once_two :
    ShowsEach (buildGroupedSidebarItems plainSidebar idlePanel twoServers) ConsumerLeafNode.shown twoServers.zipIdx
      (fun entry => sidebarBucketOf plainSidebar entry.1) fun entry =>
        (entry.2, idlePanel.statusClass entry.1, idlePanel.messageCount entry.1, idlePanel.throughputLabel entry.1) :=
  consumers_shown_once plainSidebar idlePanel twoServers (by decide)

end

end MqBridge.Ui
