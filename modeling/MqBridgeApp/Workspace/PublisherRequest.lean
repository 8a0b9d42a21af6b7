import MqBridgeApp.Workspace.MessageStorage

/-!
# The request of a publisher

The panel of a publisher shows the fields of its request in a bar and its headers as rows. From the bar
and the rows that the panel shows, and the publisher itself, it builds what is posted, and from the
publisher alone the entry of the history.
-/

namespace MqBridge.Workspace
open Text

inductive RequestInput where
  | extraOne
  | extraTwo
  | url
deriving DecidableEq

def RequestInput.id : RequestInput → Text
  | .extraOne => "pub-extra-1"
  | .extraTwo => "pub-extra-2"
  | .url => "pub-url"

structure RequestBarField where
  inputId : RequestInput
  field : Text

structure ParsedUrl where
  protocol : Text
  host : Text
  pathname : Text
  search : Text

/-- What the panel relies on besides `Browser`: the fields that the bar has for a kind of endpoint,
which come from the schema, and `new URL`. -/
structure Panel extends Browser where
  requestBarFields : Text → List RequestBarField
  parseUrl : Text → Option ParsedUrl

def endpointOf (publisher : Record) : Record := Json.asObject (publisher.prop "endpoint")

def endpointTypeOf (publisher : Record) : Text := getEndpointType (endpointOf publisher)

/-- The properties of an endpoint's configuration. One that is no object has none. -/
def endpointConfigOf (publisher : Record) : Record :=
  Json.asObject ((endpointOf publisher).lookup (endpointTypeOf publisher))

/-- `publisher.endpoint[endpointType][key] = value`, which keeps the order of the endpoint's keys. -/
def setEndpointConfig (publisher : Record) (key : Text) (value : Json) : Record :=
  let endpointType := endpointTypeOf publisher
  let endpoint := (endpointOf publisher).map fun property =>
    match property with
    | (kind, .obj config) => (kind, .obj (if kind = endpointType then Record.assign config key value else config))
    | other => other
  publisher.assign "endpoint" (.obj endpoint)

def composeHttpRequestUrl (endpointConfig : Record) : Text :=
  let url := Json.textOr [] (endpointConfig.prop "url")
  let rawPath := Json.textOr [] (endpointConfig.prop "path")
  if rawPath = [] ∨ rawPath = "/" then url
  else if rawPath <:+ url then url
  else
    let normalizedPath := if ['/'] <+: rawPath then rawPath else '/' :: rawPath
    url.rdropWhile (· == '/') ++ normalizedPath

def currentRequestBarValues (panel : Panel) (publisher : Record) : List (RequestInput × Text) :=
  let endpointType := endpointTypeOf publisher
  let endpointConfig := endpointConfigOf publisher
  let initial : List (RequestInput × Text) := [(.extraOne, []), (.extraTwo, []), (.url, [])]
  Assoc.insertAll initial ((panel.requestBarFields endpointType).map fun field =>
    (field.inputId,
      if endpointType = ("http" : Text) ∧ field.field = ("url" : Text) then composeHttpRequestUrl endpointConfig
      else Json.textOr [] (endpointConfig.prop field.field)))

def requestBarValue (panel : Panel) (publisher : Record) (inputId : RequestInput) : Text :=
  ((currentRequestBarValues panel publisher).lookup inputId).getD []

/-- The fields of a request that have a value, with the value as it is read. -/
def requestFieldsOf (panel : Panel) (publisher : Record) (read : Text → Text) : List (RequestBarField × Text) :=
  ((panel.requestBarFields (endpointTypeOf publisher)).map fun field =>
    (field, read (requestBarValue panel publisher field.inputId))).filter fun field => !field.2.isEmpty

/-- What a request says of its fields, under their own names and those of their inputs. -/
def requestMetadataOf (fields : List (RequestBarField × Text)) : List (Text × Text) :=
  Assoc.insertAll [] (fields.flatMap fun field =>
    [(("request_bar." : Text) ++ field.1.field, field.2), (("request_bar." : Text) ++ field.1.inputId.id, field.2)])

structure MetadataRow where
  id : Nat
  key : Text
  value : Text
  enabled : Bool
deriving DecidableEq

namespace MetadataRow

def toRecord (row : MetadataRow) : Record :=
  [("id", .num (.ofNat row.id)), ("key", .str row.key), ("value", .str row.value), ("enabled", .bool row.enabled)]

def naturalId : Option Json → Nat
  | some (.num n) => if n.text.all Char.isDigit then Nat.ofDigitChars 10 n.text 0 else 0
  | _ => 0

def ofJson (row : Json) : MetadataRow where
  id := naturalId (row.get? "id")
  key := nullishText (row.get? "key")
  value := nullishText (row.get? "value")
  enabled := (row.get? "enabled").any Json.truthy

end MetadataRow

/-- The id of a row, or the least one that no row before it has. -/
def unusedId (seen : List Nat) (id : Nat) : Nat :=
  if id = 0 ∨ id ∈ seen then (((List.range (seen.length + 1)).map (· + 1)).find? fun next => next ∉ seen).getD 1 else id

def normalizeHeaderRowsFrom : List Nat → List MetadataRow → List MetadataRow
  | _, [] => []
  | seen, row :: rest =>
    let id := unusedId seen row.id
    { row with id } :: normalizeHeaderRowsFrom (id :: seen) rest

/-- The rows with ids of their own, and the next id. -/
def normalizeHeaderRows (nextHeaderRowId : Nat) (rows : List MetadataRow) : List MetadataRow × Nat :=
  let rows := normalizeHeaderRowsFrom [] rows
  (rows, max nextHeaderRowId ((rows.map MetadataRow.id).foldl max 0 + 1))

/-- The rows of a publisher: those of its draft, or the headers of its `http` endpoint. -/
def buildMetadataRows (draft : Option Json) (nextHeaderRowId : Nat) (publisher : Record) : List MetadataRow × Nat :=
  match Json.items (draft.bind (Json.get? "headers")) with
  | [] =>
    let customHeaders :=
      if endpointTypeOf publisher = ("http" : Text) then
        ((endpointConfigOf publisher).prop "custom_headers").elim [] objectEntries
      else []
    let rows := customHeaders.mapIdx fun index header =>
      { id := nextHeaderRowId + index, key := header.1, value := header.2.toText, enabled := true }
    normalizeHeaderRows (nextHeaderRowId + rows.length) rows
  | rows => normalizeHeaderRows nextHeaderRowId (rows.map MetadataRow.ofJson)

structure PublishRequest where
  name : Text
  publisher_id : Option Json
  payload : Text
  metadata : List (Text × Text)
  endpoint : Option Json

structure PublishRequestDetails where
  request : PublishRequest
  requestHeaders : List (Text × Text)
  historyMetadata : List (Text × Text)

def indexOfFrom (c : Char) (start : Nat) (text : Text) : Option Nat :=
  ((text.drop start).findIdx? (· == c)).map (start + ·)

/-- `value.indexOf("//") + 2` -/
def afterSlashes (value : Text) : Nat := (splitAtText "//" value).elim 1 fun pieces => pieces.1.length + 2

def parsePathAndQuery (panel : Panel) (value : Text) : Text × Text :=
  match panel.parseUrl value with
  | some parsed => (orText parsed.pathname "/", parsed.search.drop 1)
  | none =>
    match indexOfFrom '/' (afterSlashes value) value with
    | some slashIndex =>
      let pieces := (value.drop slashIndex).splitOn '?'
      (orText (pieces.headD []) "/", pieces.getD 1 [])
    | none => ("/", [])

/-- The metadata that the bar adds to an `http` request. -/
def httpMetadata (panel : Panel) (publisher : Record) : List (Text × Text) :=
  if endpointTypeOf publisher = ("http" : Text) then
    let method := jsTrim (Json.textOr "POST" ((endpointConfigOf publisher).prop "method"))
    let requestUrl := jsTrim (requestBarValue panel publisher .url)
    let pathAndQuery := if requestUrl.isEmpty then ([], []) else parsePathAndQuery panel requestUrl
    let entries : List (Text × Text) :=
      [("http_method", method), ("http_path", pathAndQuery.1), ("http_query", pathAndQuery.2)]
    entries.filter fun entry => !entry.2.isEmpty
  else []

/-- The rows that are sent: the enabled ones with a key. -/
def enabledRows (rows : List MetadataRow) : List (Text × Text) :=
  (rows.filter fun row => row.enabled && !(jsTrim row.key).isEmpty).map fun row => (jsTrim row.key, row.value)

def buildPublishRequestDetails (panel : Panel) (publisher : Record) (metadataRows : List MetadataRow) :
    PublishRequestDetails :=
  let requestHeaders := enabledRows metadataRows
  { request :=
      { name := Json.textOr [] (publisher.prop "name")
        publisher_id := (publisher.prop "id").filter Json.truthy
        payload := Json.textOr [] (publisher.prop "payload")
        metadata := Assoc.insertAll (Assoc.insertAll [] requestHeaders) (httpMetadata panel publisher)
        endpoint := publisher.prop "endpoint" }
    requestHeaders
    historyMetadata :=
      Assoc.insertAll (requestMetadataOf (requestFieldsOf panel publisher jsTrim)) (httpMetadata panel publisher) }

structure PublishResponse where
  status : Nat
  statusText : Text
  duration : Nat
  responseData : Json
  now : Nat

def textObject (entries : List (Text × Text)) : Json := .obj (entries.map fun entry => (entry.1, .str entry.2))

def historyHeader (row : Json) : Json :=
  .obj [("key", .str (Json.textOr [] (row.get? "key"))), ("value", .str (Json.textOr [] (row.get? "value"))),
    ("enabled", .bool (row.get? "enabled" != some (.bool false)))]

/-- Whether a header is enabled and has a key. -/
def isSentHeader (row : Json) : Bool := row.get? "enabled" != some (.bool false) && (row.get? "key").any Json.truthy

def historyMetadataRow (row : Json) : Json := .obj (Record.put (Record.put [] "k" (row.get? "key")) "v" (row.get? "value"))

def headersOfPublisher (publisher : Record) : List Json := Json.items (publisher.prop "headers")

def requestFieldMap (panel : Panel) (publisher : Record) : List (Text × Text) :=
  Assoc.insertAll [] ((requestFieldsOf panel publisher id).map fun field => (field.1.field, field.2))

def requestUrlOf (panel : Panel) (publisher : Record) : Text :=
  ((requestFieldMap panel publisher).lookup ("url" : Text)).getD []

def buildHistoryEntry (panel : Panel) (publisher : Record) (response : PublishResponse)
    (requestMetadataOverride : List (Text × Text)) : Record :=
  let fields := requestFieldsOf panel publisher id
  let entry : Record := [("name", .str (Json.textOr [] (publisher.prop "name"))),
    ("payload", .str (Json.textOr [] (publisher.prop "payload"))),
    ("headers", .arr ((headersOfPublisher publisher).map historyHeader)),
    ("metadata", .arr (((headersOfPublisher publisher).filter isSentHeader).map historyMetadataRow)),
    ("endpoint_type", .str (endpointTypeOf publisher)),
    ("method", .str (Json.textOr [] ((endpointConfigOf publisher).prop "method"))),
    ("url", .str (requestUrlOf panel publisher)),
    ("request_fields", textObject (requestFieldMap panel publisher)),
    ("requestMetadata", textObject (Assoc.insertAll (requestMetadataOf fields) requestMetadataOverride)),
    ("status", .num (.ofNat response.status)),
    ("statusText", .str response.statusText),
    ("duration", .num (.ofNat response.duration)),
    ("time", .num (.ofNat response.now)),
    ("ok", .bool (200 ≤ response.status && response.status < 300)),
    ("responseData", response.responseData)]
  entry.put "publisher_id" (publisher.prop "id")

def applyHttpUrlToEndpoint (panel : Panel) (publisher : Record) (value : Text) : Record :=
  match panel.parseUrl value with
  | some parsed =>
    let path := orText parsed.pathname "/" ++ parsed.search
    setEndpointConfig (setEndpointConfig publisher "url" (.str (parsed.protocol ++ '/' :: '/' :: parsed.host))) "path" (.str path)
  | none => setEndpointConfig (setEndpointConfig publisher "url" (.str value)) "path" (.str "/")

def updateRequestField (panel : Panel) (publisher : Record) (inputId : RequestInput) (value : Text) : Record :=
  match (panel.requestBarFields (endpointTypeOf publisher)).find? fun field => field.inputId = inputId with
  | some field =>
    if endpointTypeOf publisher = ("http" : Text) ∧ field.field = ("url" : Text) then
      applyHttpUrlToEndpoint panel publisher value
    else setEndpointConfig publisher field.field (.str value)
  | none => publisher

def customHeadersOf (rows : List (Text × Text)) : Json := textObject (Assoc.insertAll [] rows)

/-- The first text of an entry under some keys that is not empty. -/
def firstText (texts : List (Option Json)) : Text := Json.textOr [] (texts.find? fun text => text.any Json.truthy).join

def applyHistoryRequestFieldsToPublisher (panel : Panel) (publisher : Record) (entry : Json) : Record :=
  let requestMetadata := Json.asObject (entry.get? "requestMetadata")
  let requestFields := Json.asObject (entry.get? "request_fields")
  if endpointTypeOf publisher = ("http" : Text) then
    let historyMethod := firstText [entry.get? "method", requestMetadata.lookup ("http_method" : Text)]
    let publisher :=
      if historyMethod.isEmpty then publisher else setEndpointConfig publisher "method" (.str historyMethod)
    let value := firstText [requestMetadata.lookup ("request_bar.url" : Text),
      requestMetadata.lookup ("request_bar.pub-url" : Text), requestFields.lookup ("url" : Text), entry.get? "url"]
    let path := firstText [requestMetadata.lookup ("http_path" : Text)]
    let publisher :=
      if !value.isEmpty then applyHttpUrlToEndpoint panel publisher value
      else if !path.isEmpty then setEndpointConfig publisher "path" (.str path)
      else publisher
    match Json.items (entry.get? "metadata") with
    | [] => publisher
    | rows =>
      setEndpointConfig publisher "custom_headers"
        (customHeadersOf (rows.map fun row => (nullishText (row.get? "k"), nullishText (row.get? "v"))))
  else
    (panel.requestBarFields (endpointTypeOf publisher)).foldl (fun publisher field =>
      let nextValue := firstText [requestMetadata.lookup (("request_bar." : Text) ++ field.field),
        requestMetadata.lookup (("request_bar." : Text) ++ field.inputId.id), requestFields.lookup field.field]
      if nextValue.isEmpty then publisher else setEndpointConfig publisher field.field (.str nextValue)) publisher

end MqBridge.Workspace
