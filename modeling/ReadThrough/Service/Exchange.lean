import ReadThrough.Service.MediaType
import ReadThrough.Service.Payload
import ReadThrough.Service.Reply
import ReadThrough.Service.Route

/-!
# Exchanges with clients

A client sends a `Message` and gets a `Reply`.  Any origin may do so, and may ask
first what it is allowed to send.

* `Message.request` finds the request that a message is, or what speaks against
  it; what the path says counts before the body is looked at.
* `Browser.exchange` replies to a message.
-/

namespace ReadThrough

structure Message : Type where
  method : String
  target : String
  contentType? : Option String
  body : String

namespace Message

/-- The position or number that a segment of the path is. -/
def number (segment : List Char) : Except Rejection Nat :=
  match Percent.decodeText? segment >>= Unsigned.parse? wordLimit with
  | some n => .ok n
  | none => .error .path

/-- The page that the query asks for. -/
def page (query : List Char) : Except Rejection Page :=
  match Page.ofQuery? query with
  | some page => .ok page
  | none => .error .query

/-- A body has at most so many bytes. -/
def maxBodySize : Nat := 2097152

/-- The value that the body wraps.  The body must be announced as JSON. -/
def payload (m : Message) : Except Rejection Json :=
  if !m.contentType?.any MediaType.announcesJson then .error .mediaType
  else if maxBodySize < m.body.utf8ByteSize then .error .longBody
  else
    match Payload.ofBody m.body with
    | .ok value => .ok value
    | .error .malformed => .error .malformedBody
    | .error .mismatched => .error .mismatchedBody

/-- The request that a message is, or why it is none; absent if the route does
not serve the method. -/
def request? (m : Message) (query : List Char) :
    Route → Method → Option (Except Rejection Request)
  | .objects, .get | .objects, .head => some (Request.list <$> page query)
  | .objects, .post => some (Request.create <$> m.payload)
  | .position segment, .get | .position segment, .head => some (Request.read <$> number segment)
  | .position segment, .put => some do
    let position ← number segment
    return .replace position (← m.payload)
  | .position segment, .delete => some (Request.remove <$> number segment)
  | .id segment, .get | .id segment, .head => some (Request.readId <$> number segment)
  | .stats, .get | .stats, .head => some (.ok .stats)
  | .health, .get | .health, .head => some (.ok .health)
  | _, _ => none

end Message

namespace Browser

/-- Reply to a request, or to a message that is none. -/
def reply (now : Timestamp) (b : Browser) : Except Rejection Request → Reply × Browser
  | .error rejection => (.ofRejection rejection, b)
  | .ok request =>
    match b.handle now request with
    | (.ok answer, b) => (.ofAnswer answer, b)
    | (.error e, b) => (.ofFault e, b)

/-- Reply to a message that came along a route. -/
def replyAlong (now : Timestamp) (b : Browser) (m : Message) (query : List Char)
    (route : Route) (method? : Option Method) : Reply × Browser :=
  match method? >>= m.request? query route with
  | some request =>
    let (r, b) := b.reply now request
    (if method? = some .head then r.bodiless else r, b)
  | none => ((Reply.empty 405).withField "allow" route.allowed, b)

/-- Tell what may be sent along a route, or to where there is none. -/
def permissions (route? : Option Route) : Reply :=
  let r := ((Reply.empty 200).withField "access-control-allow-methods" "*").withField
    "access-control-allow-headers" "*"
  match route? with
  | some route => r.withField "allow" route.allowed
  | none => r

/-- Reply to a message. -/
def exchange (now : Timestamp) (b : Browser) (m : Message) : Reply × Browser :=
  let target := Target.ofText m.target
  let route? := Route.ofPath? target.path
  let method? := Method.ofName? m.method
  let (r, b) :=
    if method? = some .options then (permissions route?, b)
    else
      match route? with
      | some route => b.replyAlong now m target.query route method?
      | none => (.empty 404, b)
  (r.withField "access-control-allow-origin" "*", b)

end Browser

end ReadThrough
