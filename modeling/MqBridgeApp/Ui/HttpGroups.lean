import MqBridgeApp.Lib.Blanking
import MqBridgeApp.Lib.JavaScript
import Mathlib.Data.List.Nodup
import Mathlib.Data.List.Perm.Basic
import Mathlib.Data.Rat.Defs

/-!
# HTTP groups of the sidebar

The publishers and consumers of one server are sorted into a trie of their paths. The trie is shown
from the prefix that all paths share, as groups: a chain of nodes with one child each is one group, and
a single leaf below a single child is shown without a group.
-/

namespace MqBridge.Ui
open Text

universe u

/-- `replace(/\s+/g, " ")` -/
def collapseSpaces : Text → Text
  | [] => []
  | c :: rest =>
    if isJsSpace c then
      if (rest.head?.any isJsSpace) then collapseSpaces rest else ' ' :: collapseSpaces rest
    else c :: collapseSpaces rest

def normalizeSegment (value : Text) : Text := collapseSpaces (jsTrim value)

/-- The path of a request, where `parseUrl` gives the path and the query of a URL. -/
def parseHttpPath (parseUrl : Text → Option (Text × Text)) (rawUrl rawPath : Text) : Text :=
  let trimmedPath := jsTrim rawPath
  let trimmedUrl := jsTrim rawUrl
  if !trimmedPath.isEmpty then trimmedPath
  else if trimmedUrl.isEmpty then []
  else match parseUrl trimmedUrl with
    | some (pathname, search) => orText pathname "/" ++ search
    | none => trimmedUrl.dropWhile fun c => c != '/'

def splitPathSegments (path : Text) : List Text :=
  ((((path.splitOn '?').headD []).splitOn '/').map normalizeSegment).filter fun segment => !segment.isEmpty

/-- The loop over the index: the longest common prefix of all paths, `first` being what is left of the
first path. -/
def commonPathPrefixFrom (paths : List (List Text)) : List Text → Nat → List Text
  | [], _ => []
  | segment :: rest, index =>
    if paths.all (fun path => path[index]? == some segment) then segment :: commonPathPrefixFrom paths rest (index + 1)
    else []

def commonPathPrefix : List (List Text) → List Text
  | [] => []
  | first :: paths => commonPathPrefixFrom (first :: paths) first 0

def joinSegments (segments : List Text) : Text := List.intercalate ['/'] segments

def formatHttpSegments (segments : List Text) : Text :=
  if segments.isEmpty then "/" else '/' :: joinSegments segments ++ ['/']

/-! ### The trie -/

structure GroupSortKey where
  manualOrder : Option ℚ
  methodOrder : Option ℚ
  targetSummary : Text
  label : Text

structure MutableGroupLeaf (α : Type u) where
  leaf : α
  sortKey : GroupSortKey

/-- A node of the trie. Its children are a map by their segments, in the order of insertion. -/
inductive PathTrieNode (α : Type u) where
  | mk (segment pathKey : Text) (exactLeaves : List (MutableGroupLeaf α)) (children : List (PathTrieNode α))

namespace PathTrieNode

variable {α : Type u}

def segment : PathTrieNode α → Text
  | mk segment _ _ _ => segment

def pathKey : PathTrieNode α → Text
  | mk _ pathKey _ _ => pathKey

def exactLeaves : PathTrieNode α → List (MutableGroupLeaf α)
  | mk _ _ exactLeaves _ => exactLeaves

def children : PathTrieNode α → List (PathTrieNode α)
  | mk _ _ _ children => children

end PathTrieNode

variable {α : Type u}

def createPathTrieNode (segment pathKey : Text) : PathTrieNode α := .mk segment pathKey [] []

/-- Sets the child of a segment, which is created when there is none. -/
def updateChild (segment : Text) (created : PathTrieNode α) (update : PathTrieNode α → PathTrieNode α) :
    List (PathTrieNode α) → List (PathTrieNode α)
  | [] => [update created]
  | child :: rest =>
    if child.segment = segment then update child :: rest else child :: updateChild segment created update rest

/-- The walk of the cursor down a path, at whose end the leaf is added. -/
def addLeafAt (leaf : MutableGroupLeaf α) : (builtSegments segments : List Text) → PathTrieNode α → PathTrieNode α
  | _, [], .mk segment pathKey exactLeaves children => .mk segment pathKey (exactLeaves ++ [leaf]) children
  | builtSegments, next :: segments, .mk segment pathKey exactLeaves children =>
    let builtSegments := builtSegments ++ [next]
    .mk segment pathKey exactLeaves
      (updateChild next (createPathTrieNode next (joinSegments builtSegments)) (addLeafAt leaf builtSegments segments)
        children)

structure GroupBucket (α : Type u) where
  id : Text
  label : Text
  leaves : List (MutableGroupLeaf α)
  pathRoot : Option (PathTrieNode α)
  httpPathSegments : Option (List (List Text))

def addHttpLeafToBucket (parseUrl : Text → Option (Text × Text)) (bucket : GroupBucket α) (rawUrl rawPath : Text)
    (leaf : MutableGroupLeaf α) : GroupBucket α :=
  let segments := splitPathSegments (parseHttpPath parseUrl rawUrl rawPath)
  { bucket with
    httpPathSegments := bucket.httpPathSegments.map fun paths => paths ++ [segments]
    pathRoot := some (addLeafAt leaf [] segments (bucket.pathRoot.getD (createPathTrieNode [] []))) }

/-- A new bucket, for what the source reads off its URL: the root of the URL, and its text without
scheme. -/
def createHttpBucket (sanitizeHttpRootUrl displayUrlWithoutScheme : Text → Text) (rawUrl : Text) : GroupBucket α :=
  let rootUrl := sanitizeHttpRootUrl rawUrl
  let groupLabel := jsTrim (("HTTP " : Text) ++ orText (displayUrlWithoutScheme rootUrl) "Ungrouped")
  { id := ("http:" : Text) ++ orText rootUrl groupLabel
    label := groupLabel
    leaves := []
    pathRoot := some (createPathTrieNode [] [])
    httpPathSegments := some [] }

/-- `nodeForPathPrefix`, from where the cursor stands. -/
def nodeForPathPrefixFrom (root : PathTrieNode α) : PathTrieNode α → List Text → PathTrieNode α
  | cursor, [] => cursor
  | cursor, segment :: rest =>
    match cursor.children.find? fun child => child.segment = segment with
    | some next => nodeForPathPrefixFrom root next rest
    | none => root

def nodeForPathPrefix (root : PathTrieNode α) (segments : List Text) : PathTrieNode α :=
  nodeForPathPrefixFrom root root segments

/-! ### Groups -/

inductive GroupTreeNode (α : Type u) where
  | leaf (leaf : α)
  | group (id label : Text) (children : List (GroupTreeNode α))

def isGroupNode : GroupTreeNode α → Bool
  | .leaf _ => false
  | .group .. => true

mutual
def countTrieLeaves : PathTrieNode α → Nat
  | .mk _ _ exactLeaves children => exactLeaves.length + countAllLeaves children
def countAllLeaves : List (PathTrieNode α) → Nat
  | [] => 0
  | child :: rest => countTrieLeaves child + countAllLeaves rest
end

/-- `left ?? Number.MAX_SAFE_INTEGER` -/
def orMaxSafe (order : Option ℚ) : ℚ := order.getD 9007199254740991

def compareLeaves (localeCompare : Text → Text → Ordering) (left right : MutableGroupLeaf α) : Ordering :=
  (compareOfLessAndEq (orMaxSafe left.sortKey.manualOrder) (orMaxSafe right.sortKey.manualOrder)).then <|
    (compareOfLessAndEq (orMaxSafe left.sortKey.methodOrder) (orMaxSafe right.sortKey.methodOrder)).then <|
      (localeCompare left.sortKey.targetSummary right.sortKey.targetSummary).then <|
        localeCompare left.sortKey.label right.sortKey.label

def sortGroupLeaves (localeCompare : Text → Text → Ordering) (leaves : List (MutableGroupLeaf α)) :
    List (MutableGroupLeaf α) :=
  leaves.mergeSort fun left right => (compareLeaves localeCompare left right).isLE

def sortChildren (localeCompare : Text → Text → Ordering) (children : List (PathTrieNode α)) :
    List (PathTrieNode α) :=
  children.mergeSort fun left right => (localeCompare left.segment right.segment).isLE

def flattenSingleDescendant (toRelativeHttpLeaf : MutableGroupLeaf α → List Text → α) :
    PathTrieNode α → List Text → Option α
  | .mk segment pathKey exactLeaves children, segments =>
    if countTrieLeaves (.mk segment pathKey exactLeaves children) ≠ 1 then none
    else match exactLeaves, children with
      | [leaf], _ => some (toRelativeHttpLeaf leaf segments)
      | _, onlyChild :: _ => flattenSingleDescendant toRelativeHttpLeaf onlyChild (segments ++ [onlyChild.segment])
      | _, [] => none

theorem sizeOf_child {child : PathTrieNode α} {children : List (PathTrieNode α)} (member : child ∈ children)
    (segment pathKey : Text) (exactLeaves : List (MutableGroupLeaf α)) :
    sizeOf child < sizeOf (PathTrieNode.mk segment pathKey exactLeaves children) := by
  have := List.sizeOf_lt_of_mem member
  simp only [PathTrieNode.mk.sizeOf_spec]
  omega

/-- The end of `materializeHttpNodes`: the merged children as a group, or without one at the root. -/
def closeGroup (rootId pathKey : Text) (currentSegments : List Text) (mergedChildren : List (GroupTreeNode α)) :
    List (GroupTreeNode α) :=
  if currentSegments.isEmpty then
    match mergedChildren with
    | [.group id label children] =>
      if children.all fun child => !isGroupNode child then children else [.group id label children]
    | _ => mergedChildren
  else
    [.group (rootId ++ (":path:" : Text) ++ orText pathKey (joinSegments currentSegments))
      (formatHttpSegments currentSegments) mergedChildren]

/-- The nodes that show a trie. The first case is the loop over nodes without leaves and with one child. -/
def materializeHttpNodes (localeCompare : Text → Text → Ordering) (rootId : Text)
    (toRelativeHttpLeaf : MutableGroupLeaf α → List Text → α) : PathTrieNode α → List Text → List (GroupTreeNode α)
  | .mk _ _ [] [onlyChild], inherited :: segments =>
    materializeHttpNodes localeCompare rootId toRelativeHttpLeaf onlyChild
      (inherited :: segments ++ [onlyChild.segment])
  | .mk _ pathKey leaves children, currentSegments =>
    let exactLeaves := (sortGroupLeaves localeCompare leaves).map fun leaf =>
      GroupTreeNode.leaf (toRelativeHttpLeaf leaf currentSegments)
    let childEntries := sortChildren localeCompare children
    let canFlattenChildPath := childEntries.length = 1 ∧ exactLeaves.length = 0
    let childNodes := childEntries.attach.flatMap fun ⟨child, _⟩ =>
      let childSegments := currentSegments ++ [child.segment]
      match if canFlattenChildPath then flattenSingleDescendant toRelativeHttpLeaf child childSegments else none with
      | some flattened => [GroupTreeNode.leaf flattened]
      | none => materializeHttpNodes localeCompare rootId toRelativeHttpLeaf child childSegments
    closeGroup rootId pathKey currentSegments (exactLeaves ++ childNodes)
  termination_by node => sizeOf node
  decreasing_by
    · exact sizeOf_child (List.mem_singleton_self _) ..
    · exact sizeOf_child (List.mem_mergeSort.mp ‹_›) ..

def materializeBucketChildren (localeCompare : Text → Text → Ordering)
    (toLeafNode : MutableGroupLeaf α → α) (toRelativeHttpLeaf : MutableGroupLeaf α → List Text → α)
    (bucket : GroupBucket α) : List (GroupTreeNode α) × Text :=
  let commonHttpPath := if bucket.pathRoot.isSome then commonPathPrefix (bucket.httpPathSegments.getD []) else []
  let children := match bucket.pathRoot with
    | some pathRoot =>
      materializeHttpNodes localeCompare bucket.id toRelativeHttpLeaf (nodeForPathPrefix pathRoot commonHttpPath) []
    | none => (sortGroupLeaves localeCompare bucket.leaves).map fun leaf => .leaf (toLeafNode leaf)
  (children, if commonHttpPath.isEmpty then bucket.label else bucket.label ++ '/' :: joinSegments commonHttpPath)

/-! ### Segments -/

/-- A segment of a path: it is not empty and has no slash. -/
def IsSegment (segment : Text) : Prop := segment ≠ [] ∧ '/' ∉ segment

theorem mem_collapseSpaces {text : Text} {c : Char} (member : c ∈ collapseSpaces text) : c ∈ text ∨ c = ' ' := by
  induction text with
  | nil => exact absurd member List.not_mem_nil
  | cons d rest ih =>
    rw [collapseSpaces] at member
    split at member
    · split at member
      · exact (ih member).imp (.tail _) id
      · rcases List.mem_cons.mp member with rfl | later
        · exact .inr rfl
        · exact (ih later).imp (.tail _) id
    · rcases List.mem_cons.mp member with rfl | later
      · exact .inl (.head _)
      · exact (ih later).imp (.tail _) id

theorem mem_normalizeSegment {text : Text} {c : Char} (member : c ∈ normalizeSegment text) : c ∈ text ∨ c = ' ' :=
  (mem_collapseSpaces member).imp_left fun inside =>
    (List.dropWhile_sublist _).subset ((List.rdropWhile_prefix _ _).subset inside)

theorem isSegment_of_mem {path segment : Text} (member : segment ∈ splitPathSegments path) : IsSegment segment := by
  obtain ⟨inside, full⟩ := List.mem_filter.mp member
  obtain ⟨piece, split, rfl⟩ := List.mem_map.mp inside
  refine ⟨fun empty => by simp [empty] at full, fun slash => ?_⟩
  rcases mem_normalizeSegment slash with there | blank
  · exact (Blanking.mem_of_mem_splitOn split _ there).2 rfl
  · exact absurd blank (by decide)

theorem joinSegments_ne_nil {segments : List Text} (valid : ∀ segment ∈ segments, IsSegment segment)
    (some_ : segments ≠ []) : joinSegments segments ≠ [] := by
  cases segments with
  | nil => exact absurd rfl some_
  | cons first rest =>
    intro empty
    apply (valid first (.head _)).1
    cases rest with
    | nil => simpa [joinSegments] using empty
    | cons second rest => simp [joinSegments, List.intercalate_cons_cons] at empty

theorem joinSegments_inj {segments segments' : List Text} (valid : ∀ segment ∈ segments, IsSegment segment)
    (valid' : ∀ segment ∈ segments', IsSegment segment) (some_ : segments ≠ []) (some_' : segments' ≠ [])
    (same : joinSegments segments = joinSegments segments') : segments = segments' := by
  rw [← List.splitOn_intercalate '/' (fun segment member => (valid segment member).2) some_,
    ← List.splitOn_intercalate '/' (fun segment member => (valid' segment member).2) some_']
  exact congrArg (List.splitOn '/') same

theorem commonPathPrefixFrom_prefix {paths : List (List Text)} {path : List Text} (member : path ∈ paths) :
    ∀ (rest : List Text) (index : Nat), commonPathPrefixFrom paths rest index <+: path.drop index := by
  intro rest
  induction rest with
  | nil => exact fun index => List.nil_prefix
  | cons segment rest ih =>
    intro index
    rw [commonPathPrefixFrom]
    split
    · rename_i shared
      have here : path[index]? = some segment := by simpa using List.all_eq_true.mp shared path member
      rw [List.drop_eq_getElem?_toList_append, here]
      exact List.prefix_append_right_inj [segment] |>.mpr (ih (index + 1))
    · exact List.nil_prefix

theorem commonPathPrefix_prefix {paths : List (List Text)} {path : List Text} (member : path ∈ paths) :
    commonPathPrefix paths <+: path := by
  cases paths with
  | nil => exact absurd member List.not_mem_nil
  | cons first paths =>
    have := commonPathPrefixFrom_prefix member first 0
    rwa [List.drop_zero] at this

mutual
/-- The leaves of a trie, each with its path. -/
def contents : PathTrieNode α → List (List Text × MutableGroupLeaf α)
  | .mk _ _ exactLeaves children => exactLeaves.map (fun leaf => ([], leaf)) ++ contentsOfAll children
def contentsOfAll : List (PathTrieNode α) → List (List Text × MutableGroupLeaf α)
  | [] => []
  | child :: rest => (contents child).map (fun entry => (child.segment :: entry.1, entry.2)) ++ contentsOfAll rest
end

/-- What a child adds to the contents of its parent. -/
def contentsBelow (child : PathTrieNode α) : List (List Text × MutableGroupLeaf α) :=
  (contents child).map fun entry => (child.segment :: entry.1, entry.2)

theorem contentsOfAll_eq (children : List (PathTrieNode α)) : contentsOfAll children = children.flatMap contentsBelow := by
  induction children with
  | nil => rfl
  | cons child rest ih => rw [contentsOfAll, ih, List.flatMap_cons]; rfl

mutual
theorem countTrieLeaves_eq : ∀ node : PathTrieNode α, countTrieLeaves node = (contents node).length
  | .mk _ _ exactLeaves children => by
    simp only [countTrieLeaves, contents, List.length_append, List.length_map, countAllLeaves_eq children]
theorem countAllLeaves_eq : ∀ children : List (PathTrieNode α), countAllLeaves children = (contentsOfAll children).length
  | [] => rfl
  | child :: rest => by
    simp only [countAllLeaves, contentsOfAll, List.length_append, List.length_map, countTrieLeaves_eq child,
      countAllLeaves_eq rest]
end

/-- A trie at a path: each node has the key of its path, children have segments of their own, and there
is a leaf below each child. -/
inductive Grown : List Text → PathTrieNode α → Prop
  | mk {path : List Text} {segment : Text} {exactLeaves : List (MutableGroupLeaf α)} {children : List (PathTrieNode α)}
      (distinct : (children.map PathTrieNode.segment).Nodup)
      (segments : ∀ child ∈ children, IsSegment child.segment)
      (full : ∀ child ∈ children, contents child ≠ [])
      (below : ∀ child ∈ children, Grown (path ++ [child.segment]) child) :
      Grown path (.mk segment (joinSegments path) exactLeaves children)

theorem grown_create (path : List Text) (segment : Text) :
    Grown path (createPathTrieNode (α := α) segment (joinSegments path)) :=
  .mk List.nodup_nil (by simp) (by simp) (by simp)

/-! ### Adding a leaf -/

theorem updateChild_cases (segment : Text) (created : PathTrieNode α) (update : PathTrieNode α → PathTrieNode α)
    (children : List (PathTrieNode α)) :
    (∃ front child back, children = front ++ child :: back ∧ child.segment = segment ∧
      updateChild segment created update children = front ++ update child :: back) ∨
    (segment ∉ children.map PathTrieNode.segment ∧
      updateChild segment created update children = children ++ [update created]) := by
  induction children with
  | nil => exact .inr ⟨by simp, rfl⟩
  | cons child rest ih =>
    by_cases same : child.segment = segment
    · exact .inl ⟨[], child, rest, rfl, same, by simp [updateChild, same]⟩
    · rcases ih with ⟨front, found, back, rfl, named, updated⟩ | ⟨absent, updated⟩
      · exact .inl ⟨child :: front, found, back, rfl, named, by simp [updateChild, same, updated]⟩
      · refine .inr ⟨?_, by simp [updateChild, same, updated]⟩
        simp only [List.map_cons, List.mem_cons, not_or]
        exact ⟨fun h => same h.symm, absent⟩

theorem segment_addLeafAt (leaf : MutableGroupLeaf α) (builtSegments segments : List Text) (node : PathTrieNode α) :
    (addLeafAt leaf builtSegments segments node).segment = node.segment := by
  cases node
  cases segments <;> rfl

theorem contents_addLeafAt (leaf : MutableGroupLeaf α) (segments : List Text) : ∀ (builtSegments : List Text)
    (node : PathTrieNode α), (contents (addLeafAt leaf builtSegments segments node)).Perm
      ((segments, leaf) :: contents node) := by
  induction segments with
  | nil =>
    rintro builtSegments ⟨segment, pathKey, exactLeaves, children⟩
    simp only [addLeafAt, contents, List.map_append, List.map_cons, List.map_nil, List.append_assoc]
    exact List.perm_middle
  | cons next segments ih =>
    rintro builtSegments ⟨segment, pathKey, exactLeaves, children⟩
    simp only [addLeafAt, contents, contentsOfAll_eq]
    have added : ∀ child : PathTrieNode α, child.segment = next →
        (contentsBelow (addLeafAt leaf (builtSegments ++ [next]) segments child)).Perm
          ((next :: segments, leaf) :: contentsBelow child) := by
      intro child named
      rw [contentsBelow, contentsBelow, segment_addLeafAt, named]
      exact (ih _ child).map _
    rcases updateChild_cases next (createPathTrieNode next (joinSegments (builtSegments ++ [next])))
      (addLeafAt leaf (builtSegments ++ [next]) segments) children with ⟨front, child, back, rfl, named, updated⟩ | ⟨-, updated⟩
    · rw [updated]
      simp only [List.flatMap_append, List.flatMap_cons]
      refine .trans (.append_left _ (.append_left _ ((added child named).append_right _))) ?_
      exact (List.perm_middle.append_left _).trans List.perm_middle
    · rw [updated]
      simp only [List.flatMap_append, List.flatMap_cons, List.flatMap_nil, List.append_nil]
      refine .trans (.append_left _ (.append_left _ (added _ rfl))) ?_
      exact (List.perm_middle.append_left _).trans List.perm_middle |>.trans (by simp [contentsBelow, contents, createPathTrieNode, contentsOfAll])

theorem grown_addLeafAt (leaf : MutableGroupLeaf α) (segments : List Text) (valid : ∀ segment ∈ segments, IsSegment segment) :
    ∀ (path : List Text) (node : PathTrieNode α), Grown path node → Grown path (addLeafAt leaf path segments node) := by
  induction segments with
  | nil =>
    rintro path _ ⟨distinct, named, full, below⟩
    exact .mk distinct named full below
  | cons next segments ih =>
    rintro path _ ⟨distinct, named, full, below⟩
    rename_i segment exactLeaves children
    have added : ∀ child : PathTrieNode α, contents (addLeafAt leaf (path ++ [next]) segments child) ≠ [] :=
      fun child empty => by simpa [empty] using contents_addLeafAt leaf segments (path ++ [next]) child
    have kept := ih fun segment member => valid segment (.tail _ member)
    have nextValid := valid next (.head _)
    rw [addLeafAt]
    rcases updateChild_cases next (createPathTrieNode next (joinSegments (path ++ [next])))
      (addLeafAt leaf (path ++ [next]) segments) children with ⟨front, child, back, rfl, rfl, updated⟩ | ⟨absent, updated⟩
    · rw [updated]
      refine .mk (by simpa [segment_addLeafAt] using distinct) ?_ ?_ ?_ <;>
        simp only [List.forall_mem_append, List.forall_mem_cons] at named full below ⊢
      · exact ⟨named.1, by rw [segment_addLeafAt]; exact named.2.1, named.2.2⟩
      · exact ⟨full.1, added child, full.2.2⟩
      · exact ⟨below.1, by rw [segment_addLeafAt]; exact kept _ _ below.2.1, below.2.2⟩
    · rw [updated]
      have created : Grown (path ++ [next]) (createPathTrieNode (α := α) next (joinSegments (path ++ [next]))) := grown_create ..
      refine .mk ?_ ?_ ?_ ?_
      · rw [List.map_append, List.map_singleton, segment_addLeafAt]
        exact (List.nodup_cons.mpr ⟨absent, distinct⟩).perm (List.perm_append_singleton ..).symm
      all_goals simp only [List.forall_mem_append, List.forall_mem_singleton]
      · exact ⟨named, by rw [segment_addLeafAt]; exact nextValid⟩
      · exact ⟨full, added _⟩
      · exact ⟨below, by rw [segment_addLeafAt]; exact kept _ _ created⟩

/-- When all paths begin with one segment, the trie is the child of that segment. -/
theorem contents_of_common {path : List Text} {node : PathTrieNode α} (grown : Grown path node) (some_ : contents node ≠ [])
    {segment : Text} {rest : List Text} (common : ∀ entry ∈ contents node, segment :: rest <+: entry.1) :
    ∃ child ∈ node.children, node.children.find? (fun child => child.segment = segment) = some child ∧
      child.segment = segment ∧ contents node = contentsBelow child := by
  obtain ⟨distinct, -, full, -⟩ := grown
  rename_i own exactLeaves children
  have bare : exactLeaves = [] := by
    cases exactLeaves with
    | nil => rfl
    | cons leaf others => simpa using common ([], leaf) (by simp [contents])
  subst bare
  have under : ∀ child ∈ children, child.segment = segment := by
    intro child member
    obtain ⟨entry, inside⟩ := List.exists_mem_of_ne_nil _ (full child member)
    have := common (child.segment :: entry.1, entry.2) (by
      simp only [contents, List.map_nil, List.nil_append, contentsOfAll_eq]
      exact List.mem_flatMap.mpr ⟨child, member, List.mem_map_of_mem inside⟩)
    exact (List.cons_prefix_cons.mp this).1.symm
  match children, under, distinct with
  | [], _, _ => exact absurd rfl some_
  | [child], under, _ =>
    refine ⟨child, .head _, ?_, under child (.head _), ?_⟩
    · simp [PathTrieNode.children, under child (.head _)]
    · simp [contents, contentsOfAll, contentsBelow]
  | first :: second :: others, under, distinct =>
    simp [under first (.head _), under second (.tail _ (.head _))] at distinct

/-- The node at a prefix that all paths share holds what is left of them. -/
theorem nodeForPathPrefixFrom_spec (root : PathTrieNode α) (shared : List Text) : ∀ (path : List Text)
    (cursor : PathTrieNode α), Grown path cursor → contents cursor ≠ [] →
      (∀ entry ∈ contents cursor, shared <+: entry.1) →
      Grown (path ++ shared) (nodeForPathPrefixFrom root cursor shared) ∧
        contents cursor = (contents (nodeForPathPrefixFrom root cursor shared)).map fun entry =>
          (shared ++ entry.1, entry.2) := by
  induction shared with
  | nil => exact fun path cursor grown _ _ => ⟨by simpa [nodeForPathPrefixFrom] using grown, by simp [nodeForPathPrefixFrom]⟩
  | cons segment rest ih =>
    intro path cursor grown some_ common
    obtain ⟨child, member, found, rfl, same⟩ := contents_of_common grown some_ common
    have below : Grown (path ++ [child.segment]) child := by
      cases grown with | mk _ _ _ below => exact below child member
    have full : contents child ≠ [] := fun empty => some_ (by rw [same, contentsBelow, empty, List.map_nil])
    have commonBelow : ∀ entry ∈ contents child, rest <+: entry.1 := by
      intro entry inside
      have := common (child.segment :: entry.1, entry.2) (same ▸ List.mem_map_of_mem inside)
      exact (List.cons_prefix_cons.mp this).2
    obtain ⟨reached, left⟩ := ih _ child below full commonBelow
    rw [nodeForPathPrefixFrom, found]
    refine ⟨by simpa using reached, ?_⟩
    rw [same, contentsBelow, left, List.map_map]
    rfl

mutual
def shownLeaves : GroupTreeNode α → List α
  | .leaf leaf => [leaf]
  | .group _ _ children => allShownLeaves children
def allShownLeaves : List (GroupTreeNode α) → List α
  | [] => []
  | node :: rest => shownLeaves node ++ allShownLeaves rest
end

mutual
/-- The groups of a tree, each with its id and children. -/
def groupsOf : GroupTreeNode α → List (Text × List (GroupTreeNode α))
  | .leaf _ => []
  | .group id _ children => (id, children) :: allGroups children
def allGroups : List (GroupTreeNode α) → List (Text × List (GroupTreeNode α))
  | [] => []
  | node :: rest => groupsOf node ++ allGroups rest
end

theorem allShownLeaves_eq (nodes : List (GroupTreeNode α)) : allShownLeaves nodes = nodes.flatMap shownLeaves := by
  induction nodes with
  | nil => rfl
  | cons node rest ih => rw [allShownLeaves, ih, List.flatMap_cons]

theorem allGroups_eq (nodes : List (GroupTreeNode α)) : allGroups nodes = nodes.flatMap groupsOf := by
  induction nodes with
  | nil => rfl
  | cons node rest ih => rw [allGroups, ih, List.flatMap_cons]

variable {localeCompare : Text → Text → Ordering} {rootId : Text} {toRelativeHttpLeaf : MutableGroupLeaf α → List Text → α}

/-- What a child is shown as, where `flat` says that it may be flattened. -/
def shownChild (localeCompare : Text → Text → Ordering) (rootId : Text)
    (toRelativeHttpLeaf : MutableGroupLeaf α → List Text → α) (flat : Prop) [Decidable flat] (currentSegments : List Text)
    (child : PathTrieNode α) : List (GroupTreeNode α) :=
  match if flat then flattenSingleDescendant toRelativeHttpLeaf child (currentSegments ++ [child.segment]) else none with
  | some flattened => [.leaf flattened]
  | none => materializeHttpNodes localeCompare rootId toRelativeHttpLeaf child (currentSegments ++ [child.segment])

variable (localeCompare rootId toRelativeHttpLeaf) in
/-- One call: it descends to the only child, or it closes a group over what is shown of the leaves and
of the children. -/
theorem materializeHttpNodes_cases (segment pathKey : Text) (leaves : List (MutableGroupLeaf α))
    (children : List (PathTrieNode α)) (currentSegments : List Text) :
    (∃ onlyChild, leaves = [] ∧ children = [onlyChild] ∧
      materializeHttpNodes localeCompare rootId toRelativeHttpLeaf (.mk segment pathKey leaves children) currentSegments =
        materializeHttpNodes localeCompare rootId toRelativeHttpLeaf onlyChild (currentSegments ++ [onlyChild.segment])) ∨
    ∃ (flat : Prop) (_ : Decidable flat),
      materializeHttpNodes localeCompare rootId toRelativeHttpLeaf (.mk segment pathKey leaves children) currentSegments =
        closeGroup rootId pathKey currentSegments
          ((sortGroupLeaves localeCompare leaves).map (fun leaf => .leaf (toRelativeHttpLeaf leaf currentSegments)) ++
            (sortChildren localeCompare children).flatMap
              (shownChild localeCompare rootId toRelativeHttpLeaf flat currentSegments)) := by
  by_cases chain : ∃ onlyChild, leaves = [] ∧ children = [onlyChild] ∧ currentSegments ≠ []
  · obtain ⟨onlyChild, rfl, rfl, some_⟩ := chain
    obtain ⟨inherited, segments, rfl⟩ := List.exists_cons_of_ne_nil some_
    exact .inl ⟨onlyChild, rfl, rfl, by rw [materializeHttpNodes]⟩
  · refine .inr ⟨(sortChildren localeCompare children).length = 1 ∧ ((sortGroupLeaves localeCompare leaves).map fun leaf =>
      GroupTreeNode.leaf (toRelativeHttpLeaf leaf currentSegments)).length = 0, inferInstance, ?_⟩
    rw [materializeHttpNodes]
    · refine congrArg (fun nodes => closeGroup rootId pathKey currentSegments (_ ++ nodes)) ?_
      exact (List.flatMap_subtype fun child _ => rfl).trans (by rw [List.unattach_attach]; rfl)
    · rintro onlyChild inherited segments rfl rfl rfl
      exact chain ⟨onlyChild, rfl, rfl, List.cons_ne_nil _ _⟩

/-! ### Every leaf once -/

def relativeLeaves (toRelativeHttpLeaf : MutableGroupLeaf α → List Text → α) (currentSegments : List Text)
    (node : PathTrieNode α) : List α :=
  (contents node).map fun entry => toRelativeHttpLeaf entry.2 (currentSegments ++ entry.1)

theorem relativeLeaves_mk (segment pathKey : Text) (leaves : List (MutableGroupLeaf α)) (children : List (PathTrieNode α))
    (currentSegments : List Text) :
    relativeLeaves toRelativeHttpLeaf currentSegments (.mk segment pathKey leaves children) =
      leaves.map (fun leaf => toRelativeHttpLeaf leaf currentSegments) ++
        children.flatMap fun child => relativeLeaves toRelativeHttpLeaf (currentSegments ++ [child.segment]) child := by
  simp only [relativeLeaves, contents, contentsOfAll_eq, List.map_append, List.map_map, List.map_flatMap]
  simp [contentsBelow, Function.comp_def]

/-- A flattened node has one leaf below it, which is shown. -/
theorem relativeLeaves_of_flatten : ∀ (node : PathTrieNode α) (segments : List Text) {shown : α},
    flattenSingleDescendant toRelativeHttpLeaf node segments = some shown →
      relativeLeaves toRelativeHttpLeaf segments node = [shown]
  | .mk segment pathKey exactLeaves children, segments, shown, flat => by
    unfold flattenSingleDescendant at flat
    split at flat
    · exact absurd flat (by simp)
    rename_i single
    rw [not_not, countTrieLeaves_eq] at single
    rw [relativeLeaves_mk]
    match exactLeaves, children with
    | [leaf], children =>
      obtain rfl : toRelativeHttpLeaf leaf segments = shown := by simpa using flat
      have none : children.flatMap (fun child => relativeLeaves toRelativeHttpLeaf (segments ++ [child.segment]) child) = [] := by
        have alone : contentsOfAll children = [] := by simpa [contents] using single
        simpa [contentsOfAll_eq, contentsBelow, relativeLeaves] using alone
      rw [none, List.append_nil, List.map_singleton]
    | [], onlyChild :: others =>
      have ih := relativeLeaves_of_flatten onlyChild (segments ++ [onlyChild.segment]) flat
      have one : (contents onlyChild).length = 1 := by simpa [relativeLeaves] using congrArg List.length ih
      have none : others.flatMap (fun child => relativeLeaves toRelativeHttpLeaf (segments ++ [child.segment]) child) = [] := by
        have alone : contentsOfAll others = [] := by simpa [contents, contentsOfAll, one] using single
        simpa [contentsOfAll_eq, contentsBelow, relativeLeaves] using alone
      rw [List.map_nil, List.nil_append, List.flatMap_cons, ih, none, List.append_nil]
    | [], [] => simp at flat
    | first :: second :: rest, children => simp [contents] at single

theorem allShownLeaves_closeGroup (pathKey : Text) (currentSegments : List Text) (merged : List (GroupTreeNode α)) :
    allShownLeaves (closeGroup rootId pathKey currentSegments merged) = allShownLeaves merged := by
  unfold closeGroup
  split
  · split
    · split
      · simp [allShownLeaves, shownLeaves]
      · rfl
    · rfl
  · simp [allShownLeaves, shownLeaves]

theorem shownLeaves_shownChild {flat : Prop} [Decidable flat] {currentSegments : List Text} {child : PathTrieNode α}
    (shown : (allShownLeaves (materializeHttpNodes localeCompare rootId toRelativeHttpLeaf child
      (currentSegments ++ [child.segment]))).Perm (relativeLeaves toRelativeHttpLeaf (currentSegments ++ [child.segment]) child)) :
    (allShownLeaves (shownChild localeCompare rootId toRelativeHttpLeaf flat currentSegments child)).Perm
      (relativeLeaves toRelativeHttpLeaf (currentSegments ++ [child.segment]) child) := by
  unfold shownChild
  split
  · rename_i flattened found
    have only : flattenSingleDescendant toRelativeHttpLeaf child (currentSegments ++ [child.segment]) = some flattened := by
      split at found
      · exact found
      · exact absurd found (by simp)
    rw [relativeLeaves_of_flatten child _ only]
    exact .refl _
  · exact shown

variable (localeCompare rootId toRelativeHttpLeaf) in
theorem shownLeaves_materialize : ∀ (node : PathTrieNode α) (currentSegments : List Text),
    (allShownLeaves (materializeHttpNodes localeCompare rootId toRelativeHttpLeaf node currentSegments)).Perm
      (relativeLeaves toRelativeHttpLeaf currentSegments node)
  | .mk segment pathKey leaves children, currentSegments => by
    have ih : ∀ child ∈ children, ∀ segments,
        (allShownLeaves (materializeHttpNodes localeCompare rootId toRelativeHttpLeaf child segments)).Perm
          (relativeLeaves toRelativeHttpLeaf segments child) := fun child member segments =>
      have := sizeOf_child member segment pathKey leaves
      shownLeaves_materialize child segments
    rcases materializeHttpNodes_cases localeCompare rootId toRelativeHttpLeaf segment pathKey leaves children currentSegments with
      ⟨onlyChild, rfl, rfl, descended⟩ | ⟨flat, _, closed⟩
    · rw [descended, relativeLeaves_mk]
      simpa using ih onlyChild (.head _) _
    · rw [closed, allShownLeaves_closeGroup, relativeLeaves_mk, allShownLeaves_eq, List.flatMap_append]
      refine .append ?_ ?_
      · simp only [List.flatMap_map, shownLeaves, ← List.map_eq_flatMap]
        exact (List.mergeSort_perm leaves _).map _
      · rw [List.flatMap_assoc]
        refine .trans (.flatMap_left _ fun child member => ?_) ((List.mergeSort_perm children _).flatMap_right _)
        rw [← allShownLeaves_eq]
        exact shownLeaves_shownChild (ih child (List.mem_mergeSort.mp member) _)
  termination_by node => sizeOf node

/-! ### Groups -/

def groupId (rootId : Text) (path : List Text) : Text := rootId ++ (":path:" : Text) ++ joinSegments path

/-- Groups with ids of their own that are not empty, all of them at or below a path. -/
structure GroupsUnder (rootId : Text) (path : List Text) (nodes : List (GroupTreeNode α)) : Prop where
  distinct : ((allGroups nodes).map Prod.fst).Nodup
  full : ∀ group ∈ allGroups nodes, group.2 ≠ []
  under : ∀ group ∈ allGroups nodes, ∃ below, path ++ below ≠ [] ∧ (∀ segment ∈ path ++ below, IsSegment segment) ∧
    group.1 = groupId rootId (path ++ below)

theorem groupsUnder_of_none {path : List Text} {nodes : List (GroupTreeNode α)} (none : allGroups nodes = []) :
    GroupsUnder rootId path nodes := ⟨by simp [none], by simp [none], by simp [none]⟩

theorem groupsUnder_mono {path : List Text} {segment : Text} {nodes : List (GroupTreeNode α)}
    (groups : GroupsUnder rootId (path ++ [segment]) nodes) : GroupsUnder rootId path nodes where
  distinct := groups.distinct
  full := groups.full
  under group member := by
    obtain ⟨below, some_, valid, named⟩ := groups.under group member
    rw [List.append_assoc] at some_ valid named
    exact ⟨[segment] ++ below, some_, valid, named⟩

theorem groupId_inj {path path' : List Text} (valid : ∀ segment ∈ path, IsSegment segment)
    (valid' : ∀ segment ∈ path', IsSegment segment) (some_ : path ≠ []) (some_' : path' ≠ [])
    (same : groupId rootId path = groupId rootId path') : path = path' :=
  joinSegments_inj valid valid' some_ some_' (List.append_cancel_left same)

/-- The groups below different children are different. -/
theorem groupsUnder_flatMap {path : List Text} {children : List (PathTrieNode α)}
    (distinct : (children.map PathTrieNode.segment).Nodup) {shown : PathTrieNode α → List (GroupTreeNode α)}
    (groups : ∀ child ∈ children, GroupsUnder rootId (path ++ [child.segment]) (shown child)) :
    GroupsUnder rootId path (children.flatMap shown) := by
  have all : allGroups (children.flatMap shown) = children.flatMap fun child => allGroups (shown child) := by
    simp only [allGroups_eq, List.flatMap_assoc]
  refine ⟨?_, ?_, ?_⟩ <;> rw [all]
  · rw [List.map_flatMap, List.nodup_flatMap]
    refine ⟨fun child member => (groups child member).distinct, ?_⟩
    refine (List.pairwise_map.mp distinct).imp_of_mem fun {first second} memberFirst memberSecond apart => ?_
    refine List.disjoint_left.mpr fun id inFirst inSecond => ?_
    obtain ⟨group, there, rfl⟩ := List.mem_map.mp inFirst
    obtain ⟨group', there', same⟩ := List.mem_map.mp inSecond
    obtain ⟨below, some_, valid, named⟩ := (groups first memberFirst).under group there
    obtain ⟨below', some_', valid', named'⟩ := (groups second memberSecond).under group' there'
    have := groupId_inj valid valid' some_ some_' (named ▸ named' ▸ same.symm)
    simp only [List.append_assoc, List.append_cancel_left_eq, List.cons_append, List.nil_append, List.cons.injEq] at this
    exact apart this.1
  · intro group member
    obtain ⟨child, inside, there⟩ := List.mem_flatMap.mp member
    exact (groups child inside).full group there
  · intro group member
    obtain ⟨child, inside, there⟩ := List.mem_flatMap.mp member
    exact (groupsUnder_mono (groups child inside)).under group there

theorem allGroups_leaves {ι : Type*} (shown : ι → α) (leaves : List ι) (nodes : List (GroupTreeNode α)) :
    allGroups (leaves.map (fun leaf => GroupTreeNode.leaf (shown leaf)) ++ nodes) = allGroups nodes := by
  simp [allGroups_eq, List.flatMap_map, groupsOf]

/-- Closing a group at a path of which `currentSegments` is the end. -/
theorem groupsUnder_closeGroup {before currentSegments : List Text} {merged : List (GroupTreeNode α)}
    (valid : ∀ segment ∈ before ++ currentSegments, IsSegment segment) (some_ : merged ≠ [])
    (groups : GroupsUnder rootId (before ++ currentSegments) merged)
    (apart : currentSegments ≠ [] → ∀ group ∈ allGroups merged, group.1 ≠ groupId rootId (before ++ currentSegments)) :
    GroupsUnder rootId (before ++ currentSegments)
      (closeGroup rootId (joinSegments (before ++ currentSegments)) currentSegments merged) := by
  unfold closeGroup
  split
  · split
    · split
      · rename_i id label children flat
        have none : allGroups children = [] := by
          rw [allGroups_eq, List.flatMap_eq_nil_iff]
          intro child member
          cases child with
          | leaf => rfl
          | group => simpa [isGroupNode] using List.all_eq_true.mp flat _ member
        exact groupsUnder_of_none none
      · exact groups
    · exact groups
  · rename_i inner
    have inner : currentSegments ≠ [] := by simpa using inner
    have deep : before ++ currentSegments ≠ [] := by simp [inner]
    have key : orText (joinSegments (before ++ currentSegments)) (joinSegments currentSegments) =
        joinSegments (before ++ currentSegments) := by
      simp [orText, joinSegments_ne_nil valid deep]
    rw [key]
    refine ⟨?_, ?_, ?_⟩ <;> simp only [allGroups, groupsOf, List.append_nil]
    · rw [List.map_cons, List.nodup_cons]
      refine ⟨fun taken => ?_, groups.distinct⟩
      obtain ⟨group, member, same⟩ := List.mem_map.mp taken
      exact apart inner group member same
    · exact List.forall_mem_cons.mpr ⟨some_, groups.full⟩
    · refine List.forall_mem_cons.mpr ⟨⟨[], ?_, ?_, ?_⟩, groups.under⟩
      · rwa [List.append_nil]
      · rwa [List.append_nil]
      · simp [groupId]

theorem groupId_ne_of_flatMap {path : List Text} {children : List (PathTrieNode α)} {shown : PathTrieNode α → List (GroupTreeNode α)}
    (groups : ∀ child ∈ children, GroupsUnder rootId (path ++ [child.segment]) (shown child))
    (valid : ∀ segment ∈ path, IsSegment segment) (some_ : path ≠ []) :
    ∀ group ∈ allGroups (children.flatMap shown), group.1 ≠ groupId rootId path := by
  intro group member same
  rw [allGroups_eq, List.flatMap_assoc] at member
  obtain ⟨child, inside, there⟩ := List.mem_flatMap.mp member
  rw [← allGroups_eq] at there
  obtain ⟨below, deep, validBelow, named⟩ := (groups child inside).under group there
  have := congrArg List.length (groupId_inj validBelow valid deep some_ (named ▸ same))
  simp at this

theorem groupsUnder_shownChild {flat : Prop} [Decidable flat] {path currentSegments : List Text} {child : PathTrieNode α}
    (groups : GroupsUnder rootId path (materializeHttpNodes localeCompare rootId toRelativeHttpLeaf child
      (currentSegments ++ [child.segment]))) :
    GroupsUnder rootId path (shownChild localeCompare rootId toRelativeHttpLeaf flat currentSegments child) := by
  unfold shownChild
  split
  · exact groupsUnder_of_none rfl
  · exact groups

variable (localeCompare rootId toRelativeHttpLeaf) in
theorem groupsUnder_materialize : ∀ (node : PathTrieNode α) (before currentSegments : List Text),
    Grown (before ++ currentSegments) node → (∀ segment ∈ before ++ currentSegments, IsSegment segment) →
      contents node ≠ [] →
      GroupsUnder rootId (before ++ currentSegments)
        (materializeHttpNodes localeCompare rootId toRelativeHttpLeaf node currentSegments)
  | .mk segment _ leaves children, before, currentSegments, .mk distinct segments full below, valid, some_ => by
    have ih : ∀ child ∈ children, GroupsUnder rootId (before ++ currentSegments ++ [child.segment])
        (materializeHttpNodes localeCompare rootId toRelativeHttpLeaf child (currentSegments ++ [child.segment])) := by
      intro child member
      have smaller := sizeOf_child member segment (joinSegments (before ++ currentSegments)) leaves
      have grown := below child member
      rw [List.append_assoc] at grown ⊢
      refine groupsUnder_materialize child before (currentSegments ++ [child.segment]) grown ?_ (full child member)
      rw [← List.append_assoc]
      exact List.forall_mem_append.mpr ⟨valid, by simpa using segments child member⟩
    rcases materializeHttpNodes_cases localeCompare rootId toRelativeHttpLeaf segment (joinSegments (before ++ currentSegments)) leaves
      children currentSegments with ⟨onlyChild, rfl, rfl, descended⟩ | ⟨flat, _, closed⟩
    · rw [descended]
      exact groupsUnder_mono (ih onlyChild (.head _))
    · have sorted : ∀ child ∈ sortChildren localeCompare children, GroupsUnder rootId (before ++ currentSegments ++ [child.segment])
          (shownChild localeCompare rootId toRelativeHttpLeaf flat currentSegments child) :=
        fun child member => groupsUnder_shownChild (ih child (List.mem_mergeSort.mp member))
      have distinctSorted : ((sortChildren localeCompare children).map PathTrieNode.segment).Nodup :=
        distinct.perm ((List.mergeSort_perm children _).map _).symm
      have shown := shownLeaves_materialize localeCompare rootId toRelativeHttpLeaf
        (.mk segment (joinSegments (before ++ currentSegments)) leaves children) currentSegments
      rw [closed] at shown ⊢
      rw [allShownLeaves_closeGroup] at shown
      have same := allGroups_leaves (fun leaf => toRelativeHttpLeaf leaf currentSegments) (sortGroupLeaves localeCompare leaves)
        ((sortChildren localeCompare children).flatMap (shownChild localeCompare rootId toRelativeHttpLeaf flat currentSegments))
      refine groupsUnder_closeGroup valid (fun empty => some_ ?_) ?_ fun inner => ?_
      · rw [empty] at shown
        exact List.map_eq_nil_iff.mp shown.symm.eq_nil
      · obtain ⟨apart, filled, under⟩ := groupsUnder_flatMap distinctSorted sorted
        exact ⟨by rwa [same], by rwa [same], by rwa [same]⟩
      · rw [same]
        exact groupId_ne_of_flatMap sorted valid (by simp [inner])
  termination_by node => sizeOf node

/-! ### A bucket -/

/-- A publisher or consumer that is put into a bucket. -/
structure InsertedLeaf (α : Type u) where
  rawUrl : Text
  rawPath : Text
  leaf : MutableGroupLeaf α

def segmentsOf (parseUrl : Text → Option (Text × Text)) (insertion : InsertedLeaf α) : List Text :=
  splitPathSegments (parseHttpPath parseUrl insertion.rawUrl insertion.rawPath)

def insertLeaves (parseUrl : Text → Option (Text × Text)) (bucket : GroupBucket α) (insertions : List (InsertedLeaf α)) :
    GroupBucket α :=
  insertions.foldl (fun bucket insertion =>
    addHttpLeafToBucket parseUrl bucket insertion.rawUrl insertion.rawPath insertion.leaf) bucket

/-- A bucket holds what was inserted, in its trie and in its list of paths. -/
structure BucketHolds (parseUrl : Text → Option (Text × Text)) (bucket : GroupBucket α) (insertions : List (InsertedLeaf α)) : Prop where
  trie : ∃ root, bucket.pathRoot = some root ∧ Grown [] root ∧
    (contents root).Perm (insertions.map fun insertion => (segmentsOf parseUrl insertion, insertion.leaf))
  paths : bucket.httpPathSegments = some (insertions.map (segmentsOf parseUrl))

theorem holds_add {parseUrl : Text → Option (Text × Text)} {bucket : GroupBucket α} {insertions : List (InsertedLeaf α)}
    (holds : BucketHolds parseUrl bucket insertions) (insertion : InsertedLeaf α) :
    BucketHolds parseUrl (addHttpLeafToBucket parseUrl bucket insertion.rawUrl insertion.rawPath insertion.leaf)
      (insertions ++ [insertion]) := by
  obtain ⟨⟨root, rooted, grown, held⟩, paths⟩ := holds
  refine ⟨⟨_, rfl, ?_, ?_⟩, ?_⟩
  · rw [rooted]
    exact grown_addLeafAt _ _ (fun _ => isSegment_of_mem) _ _ grown
  · rw [rooted, List.map_append, List.map_singleton]
    refine (contents_addLeafAt insertion.leaf (segmentsOf parseUrl insertion) [] root).trans ?_
    exact (held.cons _).trans (List.perm_append_singleton ..).symm
  · simp only [addHttpLeafToBucket, paths, Option.map_some, List.map_append, List.map_singleton]
    rfl

theorem holds_insertLeaves {parseUrl : Text → Option (Text × Text)} (added : List (InsertedLeaf α)) :
    ∀ {bucket : GroupBucket α} {insertions : List (InsertedLeaf α)}, BucketHolds parseUrl bucket insertions →
      BucketHolds parseUrl (insertLeaves parseUrl bucket added) (insertions ++ added) := by
  induction added with
  | nil => exact fun {bucket insertions} holds => by rwa [List.append_nil]
  | cons insertion added ih =>
    intro bucket insertions holds
    rw [List.append_cons]
    exact ih (holds_add holds insertion)

theorem materialize_create : materializeHttpNodes localeCompare rootId toRelativeHttpLeaf (createPathTrieNode [] []) [] = [] := by
  rcases materializeHttpNodes_cases localeCompare rootId toRelativeHttpLeaf [] [] [] [] [] with ⟨_, -, empty, -⟩ | ⟨flat, _, closed⟩
  · exact absurd empty (by simp)
  · rw [createPathTrieNode, closed]
    simp [sortGroupLeaves, sortChildren, closeGroup]

/-- The tree of a bucket shows every inserted leaf once, below the prefix that all paths share; its
groups have ids of their own, and none is empty. -/
theorem materialized_once (parseUrl : Text → Option (Text × Text)) (sanitizeHttpRootUrl displayUrlWithoutScheme : Text → Text)
    (rawUrl : Text) (localeCompare : Text → Text → Ordering) (toLeafNode : MutableGroupLeaf α → α)
    (toRelativeHttpLeaf : MutableGroupLeaf α → List Text → α) (insertions : List (InsertedLeaf α)) :
    let bucket := insertLeaves parseUrl (createHttpBucket sanitizeHttpRootUrl displayUrlWithoutScheme rawUrl) insertions
    let shared := commonPathPrefix (insertions.map (segmentsOf parseUrl))
    let children := (materializeBucketChildren localeCompare toLeafNode toRelativeHttpLeaf bucket).1
    (allShownLeaves children).Perm (insertions.map fun insertion =>
        toRelativeHttpLeaf insertion.leaf ((segmentsOf parseUrl insertion).drop shared.length)) ∧
      ((allGroups children).map Prod.fst).Nodup ∧ ∀ group ∈ allGroups children, group.2 ≠ [] := by
  intro bucket shared children
  obtain ⟨⟨root, rooted, grown, held⟩, paths⟩ : BucketHolds parseUrl bucket ([] ++ insertions) :=
    holds_insertLeaves insertions ⟨⟨_, rfl, grown_create [] [], by simp [contents, createPathTrieNode, contentsOfAll]⟩, rfl⟩
  rw [List.nil_append] at held paths
  have shown : children = materializeHttpNodes localeCompare bucket.id toRelativeHttpLeaf (nodeForPathPrefix root shared) [] := by
    simp only [children, materializeBucketChildren, rooted, paths, Option.isSome_some, if_true, Option.getD_some, shared]
  rw [shown]
  by_cases none : insertions = []
  · subst none
    obtain rfl : root = createPathTrieNode [] [] := (Option.some.inj rooted).symm
    have top : nodeForPathPrefix (createPathTrieNode (α := α) [] []) shared = createPathTrieNode [] [] := rfl
    rw [top, materialize_create]
    exact ⟨.refl _, List.nodup_nil, by simp [allGroups]⟩
  have some_ : contents root ≠ [] := fun empty => none (by simpa [empty] using held)
  have common : ∀ entry ∈ contents root, shared <+: entry.1 := by
    intro entry member
    obtain ⟨insertion, inside, rfl⟩ := List.mem_map.mp (held.subset member)
    exact commonPathPrefix_prefix (List.mem_map_of_mem inside)
  obtain ⟨reached, left⟩ := nodeForPathPrefixFrom_spec root shared [] root grown some_ common
  rw [← nodeForPathPrefix] at reached left
  have valid : ∀ segment ∈ shared, IsSegment segment := by
    obtain ⟨entry, member⟩ := List.exists_mem_of_ne_nil _ some_
    obtain ⟨insertion, -, rfl⟩ := List.mem_map.mp (held.subset member)
    exact fun segment inside => isSegment_of_mem ((common _ member).subset inside)
  have groups := groupsUnder_materialize localeCompare bucket.id toRelativeHttpLeaf (nodeForPathPrefix root shared) shared [] (by simpa using reached)
    (by simpa using valid) (fun empty => some_ (by rw [left, empty, List.map_nil]))
  refine ⟨(shownLeaves_materialize _ _ _ _ []).trans ?_, groups.distinct, groups.full⟩
  have relative : relativeLeaves toRelativeHttpLeaf [] (nodeForPathPrefix root shared) =
      (contents root).map fun entry => toRelativeHttpLeaf entry.2 (entry.1.drop shared.length) := by
    rw [left, List.map_map]
    simp [relativeLeaves, Function.comp_def]
  rw [relative]
  refine (held.map _).trans ?_
  rw [List.map_map]
  exact .refl _

end MqBridge.Ui
