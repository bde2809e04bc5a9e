import ChainLedger.Http.MediaType
import ChainLedger.Http.Message
import ChainLedger.Http.QueryString
import ChainLedger.Service.Lookup
import ChainLedger.Service.Upload

/-!
# Routes

How requests reach the service. A path is matched as it is written. What a request says wrongly
is refused before the service is asked: a query that does not read, a body of another media type,
a body that is longer than announced, a body that is no JSON or is JSON of the wrong shape. A body
that is announced as too long is refused on any path.

An OPTIONS request is answered with the rules for requests from other origins, on any path; all
other responses say that any origin may read them.
-/

set_option autoImplicit false

namespace ChainLedger.Http

open Service

def greatestBody : Nat := 64 * 1024 * 1024

inductive Endpoint
  | health
  | blocks
  | head
  | findBlock
  | transactions
  | findTransaction
  | assets
  | findAsset
  | descriptions
  deriving DecidableEq, Repr

namespace Endpoint

def ofPath? : String → Option Endpoint
  | "/health" => some health
  | "/blocks" => some blocks
  | "/blocks/head" => some head
  | "/blocks/find" => some findBlock
  | "/transactions" => some transactions
  | "/transactions/find" => some findTransaction
  | "/assets" => some assets
  | "/assets/find" => some findAsset
  | "/asset_descriptions" => some descriptions
  | _ => none

/-- Every endpoint can be read; only blocks can be uploaded. -/
def methods : Endpoint → List String
  | blocks => ["GET", "HEAD", "POST"]
  | _ => ["GET", "HEAD"]

end Endpoint

def badQuery : Response := .text 400 "Failed to deserialize query string"

def tooLong : Response := .text 413 "length limit exceeded"

def longerThanAnnounced : Response :=
  .text 413 "Failed to buffer the request body: length limit exceeded"

def wrongMediaType : Response :=
  .text 415 "Expected request with \x60Content-Type: application/json\x60"

def badBody : Json.Fault → Response
  | .malformed | .unfinished => .text 400 "Failed to parse the request body as JSON"
  | .unsuitable => .text 422 "Failed to deserialize the JSON body into the target type"

def respond {α : Type} (render : α → Json.Value) : Except Service.Error α → Response
  | .ok value => .json 200 (render value)
  | .error error => .json error.status error.body

def serve {α : Type} (render : α → Json.Value) (state : State)
    (work : Except BadQuery (Work Service.Error α)) : Response × State :=
  match work with
  | .error .bad => (badQuery, state)
  | .ok work =>
    let (result, session) := work state.session
    (respond render result, { state with session })

/-- The service is in health as long as its queue is open. -/
def health (state : State) : Response :=
  if state.queue.isOpen then .text 200 "OK" else .text 503 "Service Unavailable"

def get (endpoint : Endpoint) (parameters : Parameters) (state : State) : Response × State :=
  match endpoint with
  | .health => (health state, state)
  | .head => serve BlockView.toValue state (.ok Service.head)
  | .blocks =>
    serve (Page.toValue BlockView.toValue) state do
      let paging ← parameters.paging
      let mainOnly ← parameters.value? "main_only" Parameters.readFlag
      return listBlocks (mainOnly.getD false) paging
  | .findBlock =>
    serve BlockView.toValue state do
      let hash ← parameters.text? "hash"
      let sequence ← parameters.value? "sequence" Text.readSigned32?
      return Service.findBlock hash sequence
  | .transactions =>
    serve (Page.toValue TransactionView.toValue) state do
      let paging ← parameters.paging
      let blockHash ← parameters.text? "block_hash"
      return listTransactions blockHash paging
  | .findTransaction =>
    serve TransactionView.toValue state do
      return Service.findTransaction (← parameters.required "hash")
  | .assets =>
    serve (Page.toValue AssetView.toValue) state do
      let paging ← parameters.paging
      let search ← parameters.text? "search"
      return listAssets search paging
  | .findAsset =>
    serve AssetView.toValue state do
      return Service.findAsset (← parameters.required "id")
  | .descriptions =>
    serve (Page.toValue DescriptionView.toValue) state do
      let paging ← parameters.paging
      return listDescriptions (← parameters.required "asset") paging

/-- The length with which the body is announced; an announcement that does not read is none. -/
def announcedLength? (request : Request) : Option Nat :=
  (request.headers.get? "content-length").bind Parameters.readWord

def announcesTooMuch (request : Request) : Bool :=
  (announcedLength? request).any (greatestBody < ·)

/-- The length that the body may have: as announced, and never more than the limit. -/
def admittedLength (request : Request) : Nat :=
  min greatestBody ((announcedLength? request).getD greatestBody)

def post (request : Request) (state : State) : Response × State :=
  match (request.headers.get? "content-type").bind MediaType.ofText? with
  | none => (wrongMediaType, state)
  | some mediaType =>
    if !mediaType.isJson then (wrongMediaType, state)
    else if admittedLength request < request.body.length then (longerThanAnnounced, state)
    else
      match Report.Upload.ofDocument (.ofSymbols (Json.symbolsOfOctets request.body)) with
      | .error fault => (badBody fault, state)
      | .ok upload =>
        let (result, state) := Service.upload upload state
        (respond (fun views => .array (views.map BlockView.toValue)) result, state)

def dispatch (request : Request) (state : State) : Response × State :=
  match Endpoint.ofPath? request.path with
  | none => ({ status := 404 }, state)
  | some endpoint =>
    if endpoint.methods.contains request.method then
      if request.method = "POST" then post request state
      else get endpoint (readParameters request.query) state
    else ({ status := 405 }, state)

def preflight : Response :=
  { status := 200
    headers :=
      [("access-control-allow-origin", "*"),
       ("access-control-allow-methods", "GET,POST,OPTIONS"),
       ("access-control-allow-headers", "content-type,accept,origin,authorization"),
       ("access-control-max-age", "3600")] }

def openToOrigins : Headers :=
  [("access-control-allow-origin", "*"),
   ("access-control-expose-headers", "content-type,content-length")]

def answer (request : Request) (state : State) : Response × State :=
  if request.method = "OPTIONS" then (preflight, state)
  else
    let (response, state) :=
      if announcesTooMuch request then (tooLong, state) else dispatch request state
    (response.withHeaders openToOrigins, state)

def allowance (request : Request) : Headers :=
  match Endpoint.ofPath? request.path with
  | none => []
  | some endpoint =>
    if endpoint.methods.contains request.method then []
    else [("allow", String.intercalate "," endpoint.methods)]

/-- Handles a request. On a known path the response to a HEAD request has no body. -/
def handle (request : Request) (state : State) : Response × State :=
  let (response, state) := answer request state
  let response := response.withHeaders (allowance request)
  let isBare := request.method = "HEAD" && (Endpoint.ofPath? request.path).isSome
  (if isBare then response.withoutBody else response, state)

end ChainLedger.Http
