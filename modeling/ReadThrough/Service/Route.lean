import ReadThrough.Service.Percent

/-!
# Routes

A target names a path, perhaps behind a scheme and a host, and a query.  The path
leads to one of a few routes; a route serves some methods.

* `Target.ofText` takes a target apart.
* `Route.ofPath?` finds the route of a path, whose last segment may be a position
  or a number.  No segment is empty.
* `Route.served` and `Route.allowed` tell which methods a route serves.
-/

namespace ReadThrough

structure Target : Type where
  path : List Char
  query : List Char

namespace Target

/-- The text behind the scheme, if there is one. -/
def afterScheme? : List Char → Option (List Char)
  | ':' :: '/' :: '/' :: rest => some rest
  | _ :: rest => afterScheme? rest
  | [] => none

/-- A character that ends the host. -/
def endsHost (c : Char) : Bool := c == '/' || c == '?'

/-- The path and query, without the scheme and the host in front.  A host alone
has no path; behind a scheme the path is never empty. -/
def withoutHost (cs : List Char) : List Char :=
  match cs with
  | '/' :: _ | ['*'] => cs
  | _ =>
    match afterScheme? cs with
    | some rest =>
      match rest.dropWhile (!endsHost ·) with
      | '/' :: path => '/' :: path
      | query => '/' :: query
    | none => []

/-- Take a target apart; what follows a number sign does not matter. -/
def ofText (text : String) : Target :=
  let (path, query) :=
    Percent.splitFirst '?' (withoutHost (text.toList.takeWhile (· != '#')))
  ⟨path, query⟩

end Target

/-- The methods that mean something. -/
inductive Method where
  | get
  | head
  | post
  | put
  | delete
  | options
  deriving DecidableEq

namespace Method

def ofName? : String → Option Method
  | "GET" => some get
  | "HEAD" => some head
  | "POST" => some post
  | "PUT" => some put
  | "DELETE" => some delete
  | "OPTIONS" => some options
  | _ => none

def name : Method → String
  | get => "GET"
  | head => "HEAD"
  | post => "POST"
  | put => "PUT"
  | delete => "DELETE"
  | options => "OPTIONS"

end Method

inductive Route where
  | objects
  /-- One object, by its position. -/
  | position (segment : List Char)
  /-- One object, by its number. -/
  | id (segment : List Char)
  | stats
  | health
  deriving DecidableEq

namespace Route

/-- The route of the segments of a path. -/
def ofSegments? : List (List Char) → Option Route
  | [s] =>
    if s = "objects".toList then some objects
    else if s = "stats".toList then some stats
    else if s = "health".toList then some health
    else none
  | [s, t] => if s = "objects".toList && !t.isEmpty then some (position t) else none
  | [s, t, u] =>
    if s = "objects".toList && t = "id".toList && !u.isEmpty then some (id u) else none
  | _ => none

def ofPath? : List Char → Option Route
  | '/' :: path => ofSegments? (Percent.splitAll '/' path)
  | _ => none

/-- The methods that a route serves.  Whatever can be got has a head. -/
def served : Route → List Method
  | objects => [.get, .head, .post]
  | position _ => [.get, .head, .put, .delete]
  | id _ | stats | health => [.get, .head]

/-- The methods that a route serves, as the value of a header field. -/
def allowed (r : Route) : String := ",".intercalate (r.served.map Method.name)

end Route

end ReadThrough
