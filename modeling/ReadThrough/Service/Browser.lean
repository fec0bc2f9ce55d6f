import ReadThrough.Fronted
import ReadThrough.Lock.Threads
import ReadThrough.Service.Document
import ReadThrough.Service.Page
import ReadThrough.Settings

/-!
# Browsing documents

A `Browser` serves documents from a shelf behind a cache.  It answers one request
after another; each that touches the documents has a hold of the lock meanwhile,
and gives it back.

* `Browser.ofSettings` starts with documents that are named after their numbers.
* `Browser.handle` answers a request at a given time.
-/

namespace ReadThrough

/-- What can be asked of a browser. -/
inductive Request where
  | list (page : Page)
  | read (position : Nat)
  | readId (id : Nat)
  /-- Add a document at the end, under a new number. -/
  | create (value : Json)
  /-- Give the document at a position another value. -/
  | replace (position : Nat) (value : Json)
  | remove (position : Nat)
  | stats
  | health

/-- What a browser answers. -/
inductive Answer where
  /-- Documents from a position on, and how many there are in all. -/
  | listing (offset total : Nat) (documents : List Document)
  | found (document : Document) (position? : Option Nat)
  | created (document : Document) (position : Nat)
  | removed (position id : Nat)
  | stats (counters : Stats) (size : Nat) (lock : Lock Unit)
  | healthy (now : Timestamp)

structure Browser : Type where
  documents : Fronted Nat Document
  /-- Requests come one after another, so that one thread is enough for all. -/
  lock : Lock Unit
  /-- The number of the document that is created next, below `wordLimit`. -/
  nextId : Nat

namespace Browser

/-- The number after this one.  Numbers start again at zero behind the last one,
and may then be those of older documents. -/
def nextNumber (id : Nat) : Nat := (id + 1) % wordLimit

/-- The number after the greatest one. -/
def freshId (documents : List Document) : Nat :=
  match (documents.map (·.id)).max? with
  | some id => nextNumber id
  | none => 1

/-- A browser of these documents. -/
def new (documents : List Document) (sizing : Sizing) : Browser where
  documents := .new ⟨documents, fun d => some d.id⟩ sizing
  lock := .free
  nextId := freshId documents

/-- A browser as the settings have it. -/
def ofSettings (s : Settings) (now : Timestamp) : Except Fault Browser := do
  return new (Document.seeds s.seedObjects now) (← s.sizing)

/-- The number of documents. -/
def size (b : Browser) : Nat := b.documents.shelf.size

/-! ## Holds -/

/-- Take a hold.  With a single thread nothing has to wait. -/
def hold (mode : Mode) (b : Browser) : Browser :=
  { b with lock := (Threads.acquire? b.lock () mode).getD b.lock }

/-- Give the hold back. -/
def giveBack (mode : Mode) (b : Browser) : Browser :=
  match Threads.release b.lock () mode with
  | .ok lock => { b with lock := lock }
  | .error _ => b

/-- Do something during a hold. -/
def during {β : Type} (mode : Mode) (b : Browser) (f : Browser → β × Browser) : β × Browser :=
  let (answer, b) := f (b.hold mode)
  (answer, b.giveBack mode)

/-! ## Requests -/

/-- The browser with its documents put through an operation. -/
def through {β : Type} (b : Browser)
    (f : Fronted Nat Document → Except Fault β × Fronted Nat Document) :
    Except Fault β × Browser :=
  let (answer, documents) := f b.documents
  (answer, { b with documents := documents })

/-- The documents of a page, as far as there are any. -/
def list (page : Page) (b : Browser) : Except Fault Answer × Browser :=
  match b.through Fronted.size with
  | (.error e, b) => (.error e, b)
  | (.ok total, b) =>
    let length := min page.limit (total - page.offset)
    match b.through (·.getRange page.offset length) with
    | (.error e, b) => (.error e, b)
    | (.ok documents, b) => (.ok (.listing page.offset total documents), b)

def read (position : Nat) (b : Browser) : Except Fault Answer × Browser :=
  match b.through (·.get position) with
  | (.error e, b) => (.error e, b)
  | (.ok document, b) => (.ok (.found document (some position)), b)

def readId (id : Nat) (b : Browser) : Except Fault Answer × Browser :=
  match b.through (·.getById id) with
  | (.error e, b) => (.error e, b)
  | (.ok none, b) => (.error (.absent s!"No object with id {id}"), b)
  | (.ok (some document), b) => (.ok (.found document none), b)

def create (now : Timestamp) (value : Json) (b : Browser) : Except Fault Answer × Browser :=
  let document : Document := ⟨b.nextId, value, now⟩
  let b := { b with nextId := nextNumber b.nextId }
  match b.through (·.edit (·.push document)) with
  | (.error e, b) => (.error e, b)
  | (.ok position, b) => (.ok (.created document position), b)

def replace (now : Timestamp) (position : Nat) (value : Json) (b : Browser) :
    Except Fault Answer × Browser :=
  match b.through (·.get position) with
  | (.error e, b) => (.error e, b)
  | (.ok document, b) =>
    let document := document.revised value now
    match b.through (·.edit (·.updateAt document position)) with
    | (.error e, b) => (.error e, b)
    | (.ok (), b) => (.ok (.found document (some position)), b)

def remove (position : Nat) (b : Browser) : Except Fault Answer × Browser :=
  match b.through (·.edit (·.removeAt position)) with
  | (.error e, b) => (.error e, b)
  | (.ok document, b) => (.ok (.removed position document.id), b)

/-- Answer a request.  A page that is too long is refused before anything else
happens. -/
def handle (now : Timestamp) (b : Browser) : Request → Except Fault Answer × Browser
  | .list page =>
    match page.flaw? with
    | some flaw => (.error (.badRequest flaw), b)
    | none => b.during .read (list page)
  | .read position => b.during .read (read position)
  | .readId id => b.during .read (readId id)
  | .create value => b.during .write (create now value)
  | .replace position value => b.during .write (replace now position value)
  | .remove position => b.during .write (remove position)
  | .stats => (.ok (.stats b.documents.cache.snapshot b.size b.lock), b)
  | .health => (.ok (.healthy now), b)

end Browser

end ReadThrough
