import MqBridgeApp.Lib.Text

/-!
# Errors of endpoint URIs

An error is a chain of messages, the outermost first. A message quotes a URI, a middleware or a value as it was
given, and may quote a value beside it.
-/

namespace MqBridge.Copy
open Text

/-- Where a message is written, with the names it gives. -/
inductive ErrorSite where
  | notAUri
  | bodyFile
  | couldNotBuild (tag : Text)
  | responseParam (key : Text)
  | fanoutParam (other : Text)
  | fanoutEmpty
  | nestedEndpoint (key : Text)
  | requestParam (other : Text)
  | requestDuplicate (key : Text)
  | requestNeedsTo
  | switchUnfinished
  | switchUnpreceded
  | switchParam (other : Text)
  | switchMixed
  | switchNeedsKey
  | switchNoCases
  | memoryTopic
  | memoryParam (other : Text)
  | scheme (other : Text)
  | jsonLiteral (key : Text)
  | unrecognisedParam (key tag : Text)
  | filePath
  | escapedParam (key : Text)
  | middleware
  | unsupportedMiddleware (other : Text)
  | dlqEndpoint
  | middlewareLiteral (key : Text)
  | couldNotBuildMiddleware (tag : Text)
  /-- A message of the library that failed. -/
  | cause
deriving DecidableEq

structure ErrorMessage where
  site : ErrorSite
  quoted : Text
  value : Text := []
deriving DecidableEq

abbrev Rejection := List ErrorMessage

/-- What is printed in a message, with `uri` for the text that it quotes first. -/
def ErrorSite.text (uri value : Text) : ErrorSite → Text
  | .notAUri => "not a valid URI: " ++ uri
  | .bodyFile => "failed to read static body_file '" ++ uri ++ "'"
  | .couldNotBuild tag => "could not build a '" ++ tag ++ "' endpoint from URI '" ++ uri ++ "'"
  | .responseParam key =>
    "unsupported query param '" ++ key ++ "' in response URI '" ++ uri ++ "'. Response takes no query parameters"
  | .fanoutParam other =>
    "unsupported query param '" ++ other ++ "' in fanout URI '" ++ uri ++
      "'. Use 'to=<uri>' for a branch that may answer, 'mirror=<uri>' for one whose response and failures are discarded"
  | .fanoutEmpty => "fanout URI '" ++ uri ++ "' has no branches. Add at least one 'to=<uri>' or 'mirror=<uri>'"
  | .nestedEndpoint key => "invalid '" ++ key ++ "' endpoint '" ++ value ++ "' in '" ++ uri ++ "'"
  | .requestParam other =>
    "unsupported query param '" ++ other ++ "' in request URI '" ++ uri ++ "'. Supported: to, forward_to"
  | .requestDuplicate key => "duplicate query param '" ++ key ++ "' in request URI '" ++ uri ++ "'"
  | .requestNeedsTo => "request URI '" ++ uri ++ "' needs a 'to=<uri>' endpoint to send to"
  | .switchUnfinished => "switch URI '" ++ uri ++ "' has 'when=" ++ value ++ "' with no 'to=<uri>' after it"
  | .switchUnpreceded =>
    "switch URI '" ++ uri ++ "' has a 'to=" ++ value ++ "' that no 'when=<expression>' precedes"
  | .switchParam other =>
    "unsupported query param '" ++ other ++ "' in switch URI '" ++ uri ++
      "'. Supported: metadata_key, case.<value>=<uri>, when=<expression> with to=<uri>, default=<uri>"
  | .switchMixed =>
    "switch URI '" ++ uri ++ "' mixes both modes. Use either 'metadata_key=<key>' with 'case.<value>=<uri>', " ++
      "or 'when=<expression>' with 'to=<uri>'"
  | .switchNeedsKey =>
    "switch URI '" ++ uri ++
      "' needs a 'metadata_key=<key>' to branch on, or 'when=<expression>&to=<uri>' predicates"
  | .switchNoCases => "switch URI '" ++ uri ++ "' has no cases. Add 'case.<value>=<uri>'"
  | .memoryTopic => "memory URI '" ++ uri ++ "' must include a topic, e.g. memory://my-topic"
  | .memoryParam other =>
    "unrecognised query param '" ++ other ++ "' in memory URI '" ++ uri ++
      "': only 'capacity' and 'subscribe_mode' are supported"
  | .scheme other =>
    "unsupported endpoint scheme '" ++ other ++ "' in URI '" ++ uri ++ "'. Supported schemes: postgres, " ++
      "postgresql, mysql, mariadb, sqlite, nats, mongodb, redis, file, kafka, mqtt, mqtts, amqp, amqps, rabbitmq, " ++
      "rabbitmqs, http, https, clickhouse, clickhouses, ws, wss, grpc, grpcs, ibmmq, aws, zeromq, zmq, s3, gs, az, " ++
      "abfs, and the structural memory, null, static, fanout, request, switch, response. A scheme may also name an " ++
      "endpoint registered by an extension (pulsar) or loaded with --plugin"
  | .jsonLiteral key =>
    "query param '" ++ key ++ "' in URI '" ++ uri ++ "' expects a JSON literal, got '" ++ value ++ "'"
  | .unrecognisedParam key tag =>
    "unrecognised query param '" ++ key ++ "' in URI '" ++ uri ++ "': a '" ++ tag ++
      "' endpoint has no connection-URL driver options, so '" ++ key ++ "' would have no effect"
  | .filePath => "file URI '" ++ uri ++ "' must include a path"
  | .escapedParam key =>
    "in escaped mode (url=...), put driver options inside the encoded connection string; unexpected query param '" ++
      key ++ "' in URI '" ++ uri ++ "'"
  | .middleware => "invalid middleware '" ++ value ++ "' in '" ++ uri ++ "'"
  | .unsupportedMiddleware other =>
    "unsupported middleware '" ++ other ++ "'. Supported middlewares: deduplication, metrics, dlq, retry, " ++
      "random_panic, delay, weak_join, limiter, buffer, cookie_jar, transform, encryption, compression, custom"
  | .dlqEndpoint => "invalid dlq endpoint '" ++ uri ++ "'"
  | .middlewareLiteral key =>
    "query param '" ++ key ++ "' in middleware spec '" ++ uri ++ "' expects a JSON literal, got '" ++ value ++ "'"
  | .couldNotBuildMiddleware tag => "could not build a '" ++ tag ++ "' middleware from '" ++ uri ++ "'"
  | .cause => uri

def ErrorMessage.text (message : ErrorMessage) : Text := message.site.text message.quoted message.value

def padLeft (width : Nat) (text : Text) : Text := List.replicate (width - text.length) ' ' ++ text

/-- A cause, with the lines after its first one indented. -/
def indented (lead rest : Text) (message : Text) : Text :=
  lead ++ ("\n" ++ rest).intercalate (message.splitOn '\n')

def numbered : Nat → List ErrorMessage → Text
  | _, [] => []
  | index, message :: causes =>
    "\n" ++ indented (padLeft 5 (ofNat index) ++ ": ") "       " message.text ++ numbered (index + 1) causes

def causedBy : List ErrorMessage → Text
  | [] => []
  | [cause] => "\n\nCaused by:\n" ++ indented "    " "    " cause.text
  | causes => "\n\nCaused by:" ++ numbered 0 causes

/-- The report of an error that ends the command, with what the command was about to do. -/
def errorText (context : Text) (rejection : Rejection) : Text := "Error: " ++ context ++ causedBy rejection

example : errorText "invalid copy source endpoint" [⟨.requestNeedsTo, "request:", []⟩] =
    ("Error: invalid copy source endpoint\n\nCaused by:\n    request URI 'request:' needs a 'to=<uri>' endpoint to send to" : Text) := by
  decide

end MqBridge.Copy
