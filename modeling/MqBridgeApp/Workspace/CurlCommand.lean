import MqBridgeApp.Workspace.HistoryReadBack
import MqBridgeApp.Lib.Shell

/-!
# Copying a request as a curl command

The request of an HTTP publisher is copied as a command for a shell. Its URL, its headers and its payload
are quoted. Its method is not, so that the command means what it says only where the method is a word that
the shell takes as it is.
-/

namespace MqBridge.Workspace
open Text Shell

def escapeSingleQuotes (value : Text) : Text := value.flatMap fun c => if c = '\'' then "'\\''" else [c]

def shellQuote (value : Text) : Text := '\'' :: (escapeSingleQuotes value ++ ['\''])

def curlMethod (publisher : Record) : Text :=
  orText (jsTrim (Json.textOr "POST" ((endpointConfigOf publisher).prop "method"))) "POST"

def curlUrl (panel : Panel) (publisher : Record) : Text := jsTrim (requestBarValue panel publisher .url)

def curlHeaders (rows : List MetadataRow) : List (Text × Text) :=
  (rows.filter fun row => row.enabled && !(jsTrim row.key).isEmpty).map fun row => (jsTrim row.key, row.value)

def headerOption (header : Text × Text) : Text × Text := ("-H", header.1 ++ ": " ++ header.2)

def payloadOption (payload : Text) : List (Text × Text) := if payload.isEmpty then [] else [("-d", payload)]

/-- The options of a command, each with its argument. -/
def curlOptions (headers : List (Text × Text)) (payload : Text) : List (Text × Text) :=
  headers.map headerOption ++ payloadOption payload

def curlPart (option : Text × Text) : Text := option.1 ++ " " ++ shellQuote option.2

def curlCommand (method url : Text) (headers : List (Text × Text)) (payload : Text) : Text :=
  let parts := ("curl -X " ++ method ++ " " ++ shellQuote url) :: (curlOptions headers payload).map curlPart
  List.intercalate " \\\n  " parts

/-- The words that a command is meant to have. -/
def curlWords (method url : Text) (headers : List (Text × Text)) (payload : Text) : List Text :=
  let headerWords (header : Text × Text) : List Text := ["-H", header.1 ++ ": " ++ header.2]
  let payloadWords : List Text := if payload.isEmpty then [] else ["-d", payload]
  (["curl", "-X", method, url] : List Text) ++ headers.flatMap headerWords ++ payloadWords

/-- What is placed on the clipboard. Only the requests of HTTP publishers are copied. -/
def copyPublisherAsCurl (panel : Panel) (publisher : Record) (metadataRows : List MetadataRow) : Option Text :=
  if endpointTypeOf publisher = ("http" : Text) then
    some (curlCommand (curlMethod publisher) (curlUrl panel publisher) (curlHeaders metadataRows)
      (Json.textOr [] (publisher.prop "payload")))
  else none

/-- The shell splits what is copied into the words that it is meant to have. -/
def CopiesWords (panel : Panel) (publisher : Record) (metadataRows : List MetadataRow) : Prop :=
  (copyPublisherAsCurl panel publisher metadataRows).bind argumentWords =
    some (curlWords (curlMethod publisher) (curlUrl panel publisher) (curlHeaders metadataRows)
      (Json.textOr [] (publisher.prop "payload")))

theorem curlMethod_nonempty (publisher : Record) : curlMethod publisher ≠ [] := by
  unfold curlMethod orText
  split
  · decide
  · next nonempty => simpa using nonempty

section
variable (words : List Text)

theorem runArguments_escapeSingleQuotes (word value : Text) :
    (inside .single words word).runArguments (escapeSingleQuotes value) = some (inside .single words (word ++ value)) := by
  induction value generalizing word with
  | nil =>
    rw [List.append_nil]
    rfl
  | cons c rest ih =>
    have here : (inside .single words word).runArguments (if c = '\'' then "'\\''" else [c]) =
        some (inside .single words (word ++ [c])) := by
      by_cases quote : c = '\''
      · subst quote
        rfl
      · rw [if_neg quote, runArguments_cons]
        show ((inside .single words word).step c).bind _ = _
        rw [step_single quote]
        rfl
    rw [escapeSingleQuotes, List.flatMap_cons, runArguments_append, ← escapeSingleQuotes, here, Option.bind_some, ih,
      List.append_assoc]
    rfl

theorem runArguments_shellQuote (value : Text) :
    Splitter.runArguments ⟨.plain, none, words⟩ (shellQuote value) = some (inside .plain words value) := by
  have opened : Splitter.stepArgument ⟨.plain, none, words⟩ '\'' = some (inside .single words []) := rfl
  rw [shellQuote, runArguments_cons, opened, Option.bind_some, runArguments_append, runArguments_escapeSingleQuotes,
    Option.bind_some]
  rfl

theorem runArguments_option (word : Text) {option : Text × Text} (named : option.1 ≠ []) (plain : IsPlainWord option.1) :
    (inside .plain words word).runArguments (" \\\n  " ++ curlPart option) =
      some (inside .plain (words ++ [word, option.1]) option.2) := by
  have started : (inside .plain words word).runArguments " \\\n  " = some ⟨.plain, none, words ++ [word]⟩ := rfl
  have name := @runArguments_plainWord (words ++ [word]) (by simp) _ plain
  rw [if_neg (by simpa using named)] at name
  have ended : Splitter.runArguments ⟨.plain, some option.1, words ++ [word]⟩ " " =
      some ⟨.plain, none, words ++ [word] ++ [option.1]⟩ := rfl
  rw [runArguments_append, started, Option.bind_some, curlPart, runArguments_append, runArguments_append, name, Option.bind_some,
    ended, Option.bind_some, runArguments_shellQuote, List.append_assoc]
  rfl

theorem runArguments_options {options : List (Text × Text)}
    (known : ∀ option ∈ options, option.1 ≠ [] ∧ IsPlainWord option.1) (word : Text) :
    ((inside .plain words word).runArguments
      (options.flatMap fun option => (" \\\n  " : Text) ++ curlPart option)).bind Splitter.finish =
      some (words ++ word :: options.flatMap fun option => [option.1, option.2]) := by
  induction options generalizing words word with
  | nil => rfl
  | cons option rest ih =>
    obtain ⟨named, plain⟩ := known option List.mem_cons_self
    rw [List.flatMap_cons, runArguments_append, runArguments_option words word named plain, Option.bind_some,
      ih _ fun other member => known other (List.mem_cons_of_mem _ member)]
    simp

end

theorem intercalate_cons (separator first : Text) (rest : List Text) :
    separator.intercalate (first :: rest) = first ++ rest.flatMap (separator ++ ·) := by
  induction rest generalizing first with
  | nil => simp
  | cons next rest ih => rw [List.intercalate_cons_of_ne_nil (by simp), ih, List.flatMap_cons, List.append_assoc,
      List.append_assoc]

section
variable (method url : Text) (headers : List (Text × Text)) (payload : Text)

theorem curlOptions_known : ∀ option ∈ curlOptions headers payload, option.1 ≠ [] ∧ IsPlainWord option.1 := by
  intro option member
  have name : option.1 = ("-H" : Text) ∨ option.1 = ("-d" : Text) := by
    rcases List.mem_append.mp member with header | data
    · obtain ⟨_, -, rfl⟩ := List.mem_map.mp header
      exact .inl rfl
    · unfold payloadOption at data
      split at data
      · cases data
      · exact .inr (by rw [List.mem_singleton.mp data])
  rcases name with same | same <;> rw [same] <;> exact ⟨by decide, isPlainWord_of_all (by decide) (by decide)⟩

theorem curlWords_eq : curlWords method url headers payload =
    (["curl", "-X", method, url] : List Text) ++ (curlOptions headers payload).flatMap fun option => [option.1, option.2] := by
  unfold curlWords curlOptions payloadOption
  dsimp only
  rw [List.flatMap_append, List.flatMap_map, List.append_assoc]
  split <;> rfl

theorem curlCommand_eq : curlCommand method url headers payload = "curl -X " ++ (method ++ ' ' :: (shellQuote url ++
    (curlOptions headers payload).flatMap fun option => (" \\\n  " : Text) ++ curlPart option)) := by
  unfold curlCommand
  rw [intercalate_cons, List.flatMap_map]
  simp only [List.append_assoc]
  rfl

theorem argumentWords_curlCommand : argumentWords (curlCommand method url headers payload) =
    (Splitter.runArguments ⟨.plain, none, ["curl", "-X"]⟩ (method ++ ' ' :: (shellQuote url ++
      (curlOptions headers payload).flatMap fun option => (" \\\n  " : Text) ++ curlPart option))).bind
      Splitter.finish := by
  have start : Splitter.runArguments {} "curl -X " = some ⟨.plain, none, ["curl", "-X"]⟩ := by decide
  rw [argumentWords, curlCommand_eq, runArguments_append, start, Option.bind_some]

variable {method}

theorem curlCommand_words (named : method ≠ []) (plain : IsPlainWord method) :
    argumentWords (curlCommand method url headers payload) = some (curlWords method url headers payload) := by
  have start := @runArguments_plainWord ["curl", "-X"] (by simp) _ plain
  rw [if_neg (by simpa using named)] at start
  have ended : Splitter.stepArgument ⟨.plain, some method, ["curl", "-X"]⟩ ' ' =
      some ⟨.plain, none, ["curl", "-X", method]⟩ := rfl
  rw [argumentWords_curlCommand, runArguments_append, start, Option.bind_some, runArguments_cons, ended, Option.bind_some,
    runArguments_append, runArguments_shellQuote, Option.bind_some, runArguments_options _ (curlOptions_known headers payload),
    curlWords_eq]
  rfl

theorem isPlainWord_of_words (begins : ¬ Skips method)
    (words : argumentWords (curlCommand method url headers payload) = some (curlWords method url headers payload)) :
    IsPlainWord method := by
  rw [argumentWords_curlCommand, curlWords_eq] at words
  exact isPlainWord_of_split begins words

end

theorem copiesWords_iff_command (panel : Panel) {publisher : Record} (rows : List MetadataRow)
    (http : endpointTypeOf publisher = ("http" : Text)) : CopiesWords panel publisher rows ↔
      argumentWords (curlCommand (curlMethod publisher) (curlUrl panel publisher) (curlHeaders rows)
        (Json.textOr [] (publisher.prop "payload"))) =
      some (curlWords (curlMethod publisher) (curlUrl panel publisher) (curlHeaders rows)
        (Json.textOr [] (publisher.prop "payload"))) := by
  rw [CopiesWords, copyPublisherAsCurl, if_pos http, Option.bind_some]

theorem curlMethod_begins {publisher : Record} (begins : ¬ (['\\', '\n'] : Text) <+: curlMethod publisher) :
    ¬ Skips (curlMethod publisher) := by
  rintro (continued | ⟨c, first, blank⟩)
  · exact begins continued
  · have space : isJsSpace c = true := by
      simp only [isBlank, Bool.or_eq_true, decide_eq_true_eq] at blank
      rcases blank with rfl | rfl <;> decide
    unfold curlMethod orText at first
    split at first
    · obtain rfl := Option.some.inj first
      cases space
    · rw [head_jsTrim first] at space
      cases space

def methodPublisher (method : Text) : Record := [("endpoint", .obj [("http", .obj [("method", .str method)])])]

theorem curlMethod_methodPublisher (publisher : Record) :
    curlMethod (methodPublisher (curlMethod publisher)) = curlMethod publisher := by
  have kept : jsTrim (curlMethod publisher) = curlMethod publisher := by
    unfold curlMethod orText
    split
    · decide
    · exact jsTrim_idempotent _
  have nonempty := curlMethod_nonempty publisher
  generalize curlMethod publisher = method at kept nonempty ⊢
  have read : Json.textOr "POST" ((endpointConfigOf (methodPublisher method)).prop "method") = method := by
    show (if Json.truthy (.str method) then _ else _) = _
    cases method with
    | nil => exact absurd rfl nonempty
    | cons => rfl
  rw [curlMethod, read, kept, orText, if_neg (by simpa using nonempty)]

theorem isPlainWord_of_bare_words (words : argumentWords (curlCommand method [] [] []) = some (curlWords method [] [] [])) :
    IsPlainWord method := by
  rw [argumentWords_curlCommand] at words
  exact isPlainWord_of_split_empty words

/-- A method whose requests are all copied right is a word that the shell takes as it is. But for a method
that begins with a quoted line break, each request that is copied right has such a method. -/
theorem copiesWords_iff (panel : Panel) (publisher : Record) (rows : List MetadataRow)
    (http : endpointTypeOf publisher = ("http" : Text)) :
    (¬ (['\\', '\n'] : Text) <+: curlMethod publisher → (CopiesWords panel publisher rows ↔ IsPlainWord (curlMethod publisher))) ∧
    ((∀ panel' publisher' rows', endpointTypeOf publisher' = ("http" : Text) → curlMethod publisher' = curlMethod publisher →
      CopiesWords panel' publisher' rows') ↔ IsPlainWord (curlMethod publisher)) := by
  have copied : ∀ panel' publisher' rows', endpointTypeOf publisher' = ("http" : Text) → IsPlainWord (curlMethod publisher') →
      CopiesWords panel' publisher' rows' := fun panel' publisher' rows' http' plain =>
    (copiesWords_iff_command panel' rows' http').mpr (curlCommand_words _ _ _ (curlMethod_nonempty publisher') plain)
  constructor
  · intro begins
    refine ⟨fun words => ?_, copied panel publisher rows http⟩
    exact isPlainWord_of_words _ _ _ (curlMethod_begins begins) ((copiesWords_iff_command panel rows http).mp words)
  · refine ⟨fun all => ?_, fun plain panel' publisher' rows' http' same => copied panel' publisher' rows' http' (same ▸ plain)⟩
    have words := (copiesWords_iff_command plainPanel [] rfl).mp (all plainPanel _ [] rfl (curlMethod_methodPublisher publisher))
    rw [curlMethod_methodPublisher] at words
    have url : curlUrl plainPanel (methodPublisher (curlMethod publisher)) = [] := rfl
    rw [url] at words
    exact isPlainWord_of_bare_words words

theorem copiesWords_iff_get : (¬ (['\\', '\n'] : Text) <+: curlMethod (methodPublisher "GET") →
      (CopiesWords plainPanel (methodPublisher "GET") [] ↔ IsPlainWord (curlMethod (methodPublisher "GET")))) ∧
    ((∀ panel' publisher' rows', endpointTypeOf publisher' = ("http" : Text) →
      curlMethod publisher' = curlMethod (methodPublisher "GET") → CopiesWords panel' publisher' rows') ↔
      IsPlainWord (curlMethod (methodPublisher "GET"))) :=
  copiesWords_iff plainPanel (methodPublisher "GET") [] rfl

/-- A method can end the command and begin another one. -/
theorem method_runs_command : copyPublisherAsCurl plainPanel (methodPublisher "GET; REBOOT") [] =
      some ("curl -X GET; REBOOT ''" : Text) ∧
    ¬ CopiesWords plainPanel (methodPublisher "GET; REBOOT") [] := by
  constructor
  · decide
  · unfold CopiesWords
    decide

end MqBridge.Workspace
