import ReadThrough.Service.Browser

/-!
# Replies

A `Reply` is what goes back to a client: a status, header fields and a body.

* `Reply.ofAnswer` describes an answer of the browser as a JSON record.
* `Reply.ofFault` describes a fault; the status tells who has to do something.
* A `Rejection` says why a message is no request.
-/

namespace ReadThrough

structure Reply : Type where
  status : Nat
  /-- The header fields, by name. -/
  fields : List (String × String)
  body : String

/-- Why a message is no request. -/
inductive Rejection where
  /-- A position or number in the path is none. -/
  | path
  | query
  /-- The body is not announced as JSON. -/
  | mediaType
  | longBody
  | malformedBody
  | mismatchedBody
  deriving DecidableEq

namespace Rejection

def status : Rejection → Nat
  | path | query | malformedBody => 400
  | longBody => 413
  | mediaType => 415
  | mismatchedBody => 422

def message : Rejection → String
  | path => "Invalid URL"
  | query => "Failed to deserialize query string"
  | mediaType => "Expected request with `Content-Type: application/json`"
  | longBody => "Failed to buffer the request body: length limit exceeded"
  | malformedBody => "Failed to parse the request body as JSON"
  | mismatchedBody => "Failed to deserialize the JSON body into the target type"

end Rejection

/-- The status that a fault leads to. -/
def Fault.status : Fault → Nat
  | outOfBounds _ _ | rangeOutOfBounds _ _ _ | absent _ => 404
  | badRequest _ | badSizing _ => 400
  | unavailable _ _ => 503
  | lockMisuse _ | inconsistent _ => 500

/-- The fields of counters. -/
def Stats.fields (s : Stats) : List (String × Json) :=
  [("hits", .nat s.hits), ("misses", .nat s.misses), ("fetches", .nat s.fetches),
    ("fetched_objects", .nat s.fetchedObjects), ("evictions", .nat s.evictions),
    ("invalidations", .nat s.invalidations), ("total_entries", .nat s.entries)]

/-- The record of who holds a lock. -/
def Lock.json {τ : Type} (l : Lock τ) : Json :=
  .obj [("locked", .bool l.isLocked), ("write_locked", .bool l.isWriteLocked),
    ("readers", .nat l.readerCount)]

namespace Answer

/-- The records of documents that follow each other from a position on. -/
def records : Nat → List Document → List Json
  | _, [] => []
  | position, d :: ds => d.placed (some position) :: records (position + 1) ds

/-- The record that describes an answer. -/
def json : Answer → Json
  | listing offset total documents =>
    .obj [("offset", .nat offset), ("total", .nat total),
      ("objects", .arr (records offset documents))]
  | found document position? => document.placed position?
  | created document position => document.placed (some position)
  | removed position id =>
    .obj [("message", .str s!"Object {id} at position {position} deleted successfully"),
      ("position", .nat position), ("id", .nat id)]
  | stats counters size lock =>
    .obj (counters.fields ++
      [("hit_rate", .float counters.hitRate), ("source_size", .nat size), ("lock", lock.json)])
  | healthy now => .obj [("status", .str "healthy"), ("timestamp", .str now.renderWithOffset)]

def status : Answer → Nat
  | created _ _ => 201
  | _ => 200

end Answer

namespace Reply

/-- A reply without a body. -/
def empty (status : Nat) : Reply := ⟨status, [], ""⟩

/-- A reply with a body that is a JSON record. -/
def json (status : Nat) (value : Json) : Reply :=
  ⟨status, [("content-type", "application/json")], value.render⟩

/-- A reply with a body that is a plain sentence. -/
def plain (status : Nat) (text : String) : Reply :=
  ⟨status, [("content-type", "text/plain; charset=utf-8")], text⟩

def ofAnswer (a : Answer) : Reply := json a.status a.json

def ofFault (e : Fault) : Reply := json e.status (.obj [("error", .str e.message)])

def ofRejection (r : Rejection) : Reply := plain r.status r.message

/-- The reply with a further header field. -/
def withField (r : Reply) (name value : String) : Reply :=
  { r with fields := r.fields ++ [(name, value)] }

/-- The reply without its body. -/
def bodiless (r : Reply) : Reply := { r with body := "" }

/-- The value of a header field. -/
def field? (r : Reply) (name : String) : Option String := r.fields.lookup name

end Reply

end ReadThrough
