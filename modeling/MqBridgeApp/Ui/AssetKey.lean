import MqBridgeApp.Lib.Blanking
import MqBridgeApp.Lib.Text

/-!
# Keys of embedded assets

A request path is taken apart at slashes and checked piece by piece. The key is the joined path, where
each backslash has become a slash.
-/

namespace MqBridge.Ui
open Text

/-- A component of a path on a platform whose only separator is the slash. -/
inductive Component where
  | rootDir
  | curDir
  | parentDir
  | normal (part : Text)

def component? (segment : Text) : Option Component :=
  if segment = [] ∨ segment = ("." : Text) then none
  else if segment = (".." : Text) then some .parentDir
  else some (.normal segment)

/-- The components of a path. A dot is one only at the start. -/
def components (path : Text) : List Component :=
  let segments := path.splitOn '/'
  (if path.head? = some '/' then [.rootDir] else []) ++
    (if segments.head? = some ("." : Text) then [.curDir] else []) ++ segments.filterMap component?

/-- `PathBuf::push`. -/
def push (path part : Text) : Text :=
  if part.head? = some '/' then part
  else if path = [] ∨ path.getLast? = some '/' then path ++ part
  else path ++ '/' :: part

def sanitizeComponents : Text → List Component → Option Text
  | sanitized, [] => some sanitized
  | sanitized, .normal part :: rest => sanitizeComponents (push sanitized part) rest
  | sanitized, .curDir :: rest => sanitizeComponents sanitized rest
  | _, .parentDir :: _ | _, .rootDir :: _ => none

def sanitizeRelativePath (requestPath : Text) : Option Text :=
  (sanitizeComponents [] (components requestPath)).bind fun sanitized =>
    if sanitized.isEmpty then none else some sanitized

def embeddedAssetKey (requestPath : Text) : Option Text :=
  if requestPath = ("/" : Text) ∨ requestPath.isEmpty then some "index.html"
  else
    let relative := requestPath.dropWhile fun c => c == '/'
    (sanitizeRelativePath relative).map (replaceChar '\\' '/')

def parts (path : Text) : List Text := (path.splitOn '/').filter fun segment => decide (segment ≠ [] ∧ segment ≠ ("." : Text))

def ClimbsUp (path : Text) : Prop := (".." : Text) ∈ path.splitOn '/'

/-- A segment that stays where it is in a tree. -/
def IsPlain (segment : Text) : Prop := segment ≠ [] ∧ segment ≠ ("." : Text) ∧ segment ≠ (".." : Text)

instance (segment : Text) : Decidable (IsPlain segment) := inferInstanceAs (Decidable (_ ∧ _))

theorem splitOn_slash (path : Text) : ('/' :: path).splitOn '/' = [] :: path.splitOn '/' := by
  simpa using List.splitOn_append_cons_self (a := '/') [] path

theorem dropWhile_slash (path : Text) :
    parts (path.dropWhile fun c => c == '/') = parts path ∧
      (ClimbsUp (path.dropWhile fun c => c == '/') ↔ ClimbsUp path) := by
  induction path with
  | nil => exact ⟨rfl, Iff.rfl⟩
  | cons c rest ih =>
    rw [List.dropWhile_cons]
    by_cases slash : c = '/'
    · subst slash
      rw [if_pos (beq_self_eq_true '/')]
      constructor
      · rw [ih.1, parts, parts, splitOn_slash]
        rfl
      · rw [ih.2, ClimbsUp, ClimbsUp, splitOn_slash, List.mem_cons, or_iff_right (by decide)]
    · rw [if_neg (by simpa using slash)]
      exact ⟨rfl, Iff.rfl⟩

theorem mem_parts {path segment : Text} :
    segment ∈ parts path ↔ segment ∈ path.splitOn '/' ∧ segment ≠ [] ∧ segment ≠ ("." : Text) := by
  rw [parts, List.mem_filter, decide_eq_true_eq]

theorem slash_notMem_parts {path segment : Text} (member : segment ∈ parts path) : '/' ∉ segment :=
  fun inside => (Blanking.mem_of_mem_splitOn (mem_parts.mp member).1 '/' inside).2 rfl

/-! ### Sanitising -/

theorem filterMap_component {segments : List Text} (noParent : (".." : Text) ∉ segments) :
    segments.filterMap component? =
      (segments.filter fun segment => decide (segment ≠ [] ∧ segment ≠ ("." : Text))).map Component.normal := by
  induction segments with
  | nil => rfl
  | cons segment rest ih =>
    simp only [List.mem_cons, not_or] at noParent
    rw [List.filterMap_cons, List.filter_cons, ih noParent.2, component?]
    by_cases skipped : segment = [] ∨ segment = ("." : Text)
    · have dropped : ¬(segment ≠ [] ∧ segment ≠ ("." : Text)) := by tauto
      rw [if_pos skipped, if_neg (by simpa using dropped)]
    · have kept : segment ≠ [] ∧ segment ≠ ("." : Text) := by tauto
      rw [if_neg skipped, if_neg (Ne.symm noParent.1), if_pos (by simpa using kept)]
      rfl

theorem sanitizeComponents_parent {comps : List Component} (member : Component.parentDir ∈ comps) (sanitized : Text) :
    sanitizeComponents sanitized comps = none := by
  induction comps generalizing sanitized with
  | nil => cases member
  | cons first rest ih =>
    cases first with
    | parentDir => rfl
    | rootDir => rfl
    | normal part => exact ih (by simpa using member) _
    | curDir => exact ih (by simpa using member) _

theorem sanitizeComponents_normal (sanitized : Text) (segments : List Text) :
    sanitizeComponents sanitized (segments.map .normal) = some (segments.foldl push sanitized) := by
  induction segments generalizing sanitized with
  | nil => rfl
  | cons segment rest ih => exact ih _

theorem push_whole {path segment : Text} (noSlash : '/' ∉ segment) (open_ : path ≠ []) (closed : path.getLast? ≠ some '/') :
    push path segment = path ++ '/' :: segment := by
  have relative : segment.head? ≠ some '/' := fun absolute => noSlash (List.mem_of_mem_head? absolute)
  rw [push, if_neg relative, if_neg (not_or.mpr ⟨open_, closed⟩)]

theorem foldl_push {path : Text} {segments : List Text} (open_ : path ≠ []) (closed : path.getLast? ≠ some '/')
    (whole : ∀ segment ∈ segments, segment ≠ [] ∧ '/' ∉ segment) :
    segments.foldl push path = ['/'].intercalate (path :: segments) := by
  induction segments generalizing path with
  | nil => simp
  | cons segment rest ih =>
    obtain ⟨⟨nonempty, noSlash⟩, later⟩ := List.forall_mem_cons.mp whole
    have last : (path ++ '/' :: segment).getLast? ≠ some '/' := by
      intro slash
      rw [List.getLast?_append_of_ne_nil _ (List.cons_ne_nil _ _), List.getLast?_cons_of_ne_nil nonempty] at slash
      exact noSlash (List.mem_of_getLast? slash)
    rw [List.foldl_cons, push_whole noSlash open_ closed, ih (by simp) last later]
    cases rest <;> simp [List.intercalate_cons_cons]

theorem foldl_push_nil {segments : List Text} (whole : ∀ segment ∈ segments, segment ≠ [] ∧ '/' ∉ segment) :
    segments.foldl push [] = ['/'].intercalate segments := by
  cases segments with
  | nil => rfl
  | cons segment rest =>
    obtain ⟨⟨nonempty, noSlash⟩, later⟩ := List.forall_mem_cons.mp whole
    have first : push [] segment = segment := by
      have relative : segment.head? ≠ some '/' := fun absolute => noSlash (List.mem_of_mem_head? absolute)
      rw [push, if_neg relative, if_pos (.inl rfl), List.nil_append]
    have last : segment.getLast? ≠ some '/' := fun slash => noSlash (List.mem_of_getLast? slash)
    rw [List.foldl_cons, first, foldl_push nonempty last later]

theorem components_relative {path : Text} (relative : path.head? ≠ some '/') (stays : ¬ClimbsUp path) (sanitized : Text) :
    sanitizeComponents sanitized (components path) = some ((parts path).foldl push sanitized) := by
  rw [components, if_neg relative, List.nil_append, filterMap_component stays, ← parts]
  split
  · exact sanitizeComponents_normal sanitized _
  · exact sanitizeComponents_normal sanitized _

theorem sanitizeRelativePath_climbing {path : Text} (climbs : ClimbsUp path) : sanitizeRelativePath path = none := by
  have parent : Component.parentDir ∈ components path := by
    apply List.mem_append_right
    exact List.mem_filterMap.mpr ⟨_, climbs, rfl⟩
  rw [sanitizeRelativePath, sanitizeComponents_parent parent]
  rfl

theorem sanitizeRelativePath_eq {path : Text} (relative : path.head? ≠ some '/') (stays : ¬ClimbsUp path) :
    sanitizeRelativePath path = if parts path = [] then none else some (['/'].intercalate (parts path)) := by
  have whole : ∀ segment ∈ parts path, segment ≠ [] ∧ '/' ∉ segment :=
    fun segment member => ⟨(mem_parts.mp member).2.1, slash_notMem_parts member⟩
  rw [sanitizeRelativePath, components_relative relative stays, Option.bind_some, foldl_push_nil whole]
  cases found : parts path with
  | nil => rfl
  | cons first rest =>
    have nonempty := (whole first (found ▸ List.mem_cons_self)).1
    have joined : ['/'].intercalate (first :: rest) ≠ [] := by
      cases rest <;> simp [List.intercalate_cons_cons, nonempty]
    simp [joined]

/-! ### The key -/

theorem splitOn_replaced {segment : Text} (noSlash : '/' ∉ segment) :
    (replaceChar '\\' '/' segment).splitOn '/' = segment.splitOn '\\' := by
  induction segment with
  | nil => rfl
  | cons c rest ih =>
    simp only [List.mem_cons, not_or] at noSlash
    rw [replaceChar, List.map_cons, ← replaceChar, List.splitOn_cons_eq_if_modifyHead,
      List.splitOn_cons_eq_if_modifyHead, ih noSlash.2]
    by_cases backslash : c = '\\'
    · simp [backslash]
    · simp [backslash, Ne.symm noSlash.1]

/-- The segments of a key are the pieces between the backslashes of the parts. -/
theorem splitOn_key {segments : List Text} (some : segments ≠ []) (noSlash : ∀ segment ∈ segments, '/' ∉ segment) :
    (replaceChar '\\' '/' (['/'].intercalate segments)).splitOn '/' = segments.flatMap fun segment => segment.splitOn '\\' := by
  induction segments with
  | nil => contradiction
  | cons first rest ih =>
    obtain ⟨here, later⟩ := List.forall_mem_cons.mp noSlash
    cases rest with
    | nil => simp [splitOn_replaced here]
    | cons second rest =>
      have joined : replaceChar '\\' '/' (['/'].intercalate (first :: second :: rest)) =
          replaceChar '\\' '/' first ++ '/' :: replaceChar '\\' '/' (['/'].intercalate (second :: rest)) := by
        simp [List.intercalate_cons_cons, replaceChar]
      rw [joined, List.splitOn_append_cons_self, splitOn_replaced here, ih (List.cons_ne_nil _ _) later]
      simp only [List.flatMap_cons]

def StaysInside (key : Text) : Prop := key.head? ≠ some '/' ∧ ∀ segment ∈ key.splitOn '/', IsPlain segment

/-- What a request for the path is answered from stays inside the root. -/
def AnsweredInside (requestPath : Text) : Prop := ∀ key, embeddedAssetKey requestPath = some key → StaysInside key

/-- A path is rejected for a parent directory, or no backslash in a segment hides an empty, `.` or `..` piece. -/
def NothingHidden (requestPath : Text) : Prop :=
  ClimbsUp requestPath ∨ ∀ segment ∈ parts requestPath, ∀ piece ∈ segment.splitOn '\\', IsPlain piece

theorem staysInside_iff {key : Text} : StaysInside key ↔ ∀ segment ∈ key.splitOn '/', IsPlain segment := by
  refine and_iff_right_of_imp fun plain absolute => ?_
  cases key with
  | nil => cases absolute
  | cons c rest =>
    obtain rfl : c = '/' := Option.some.inj absolute
    have first := plain [] (by rw [splitOn_slash]; exact List.mem_cons_self)
    exact first.1 rfl

theorem head_dropWhile_slash (path : Text) : (path.dropWhile fun c => c == '/').head? ≠ some '/' := by
  intro slash
  have kept := List.head?_dropWhile_not (fun c => c == '/') path
  rw [slash] at kept
  simp at kept

theorem embeddedAssetKey_eq {requestPath : Text} (other : ¬(requestPath = ("/" : Text) ∨ requestPath.isEmpty))
    (stays : ¬ClimbsUp requestPath) :
    embeddedAssetKey requestPath =
      if parts requestPath = [] then none
      else some (replaceChar '\\' '/' (['/'].intercalate (parts requestPath))) := by
  obtain ⟨same, climbs⟩ := dropWhile_slash requestPath
  rw [embeddedAssetKey, if_neg other]
  dsimp only
  rw [sanitizeRelativePath_eq (head_dropWhile_slash requestPath) fun up => stays (climbs.mp up), same]
  split <;> rfl

/-- A request stays inside the root exactly when it is rejected for a parent directory, or hides nothing
behind a backslash. -/
theorem answeredInside_iff (requestPath : Text) : AnsweredInside requestPath ↔ NothingHidden requestPath := by
  by_cases index : requestPath = ("/" : Text) ∨ requestPath.isEmpty
  · have page : embeddedAssetKey requestPath = some "index.html" := if_pos index
    have inside : StaysInside "index.html" := by
      rw [staysInside_iff]
      decide
    have nothing : parts requestPath = [] := by
      rcases index with rfl | empty
      · rfl
      · rw [List.isEmpty_iff.mp empty]
        rfl
    refine iff_of_true ?_ (.inr ?_)
    · intro key found
      obtain rfl := Option.some.inj (page.symm.trans found)
      exact inside
    · rw [nothing]
      exact nofun
  · by_cases climbs : ClimbsUp requestPath
    · have rejected : embeddedAssetKey requestPath = none := by
        rw [embeddedAssetKey, if_neg index]
        dsimp only
        rw [sanitizeRelativePath_climbing ((dropWhile_slash requestPath).2.mpr climbs)]
        rfl
      refine iff_of_true ?_ (.inl climbs)
      intro key found
      rw [rejected] at found
      cases found
    · rw [NothingHidden, or_iff_right climbs, AnsweredInside, embeddedAssetKey_eq index climbs]
      by_cases nothing : parts requestPath = []
      · simp [nothing]
      · have segments := splitOn_key nothing fun segment member => slash_notMem_parts member
        simp only [if_neg nothing, Option.some.injEq, forall_eq', staysInside_iff, segments, List.mem_flatMap]
        constructor
        · exact fun plain segment member piece inside => plain piece ⟨segment, member, inside⟩
        · rintro plain piece ⟨segment, member, inside⟩
          exact plain segment member piece inside

/-- The two ways out of the root: up from it, and to the root of the file system. -/
theorem embeddedAssetKey_outside :
    embeddedAssetKey "a\\..\\..\\b" = some "a/../../b" ∧ ¬AnsweredInside "a\\..\\..\\b" ∧
      embeddedAssetKey "\\etc" = some "/etc" ∧ ¬AnsweredInside "\\etc" := by
  have up : embeddedAssetKey "a\\..\\..\\b" = some "a/../../b" := by decide
  have root : embeddedAssetKey "\\etc" = some "/etc" := by decide
  refine ⟨up, fun inside => ?_, root, fun inside => ?_⟩
  · exact ((inside _ up).2 ".." (by decide)).2.2 rfl
  · exact (inside _ root).1 rfl

end MqBridge.Ui
