import ReadThrough.Proofs.Table.Holds
import ReadThrough.Service.Reply

/-!
# A plain list server

What a browser is to look like from outside: a list of numbered values, and the number
that comes next.  There is no cache here, no lock, and no time, and nothing is shared with
the browser but requests and the form of replies.

* `Ledger.Response` is what the server tells, and `Response.reply` the whole reply: its
  status, its record and its texts.  The times of last changes are put in from outside.
* `Ledger.handle` responds to a request about documents, from the list alone.
* `Ledger.run` responds to one request after another.
* `Ledger.Orderly`: the numbers in the list differ and are all below the next one;
  `Orderly.handle` says that this stays.
-/

namespace ReadThrough

structure Ledger : Type where
  /-- The documents: a number and a value each. -/
  items : List (Nat × Json)
  /-- The number of the next new document. -/
  nextId : Nat

/-- The request is about documents, and not about the service itself. -/
def Request.concernsDocuments : Request → Bool
  | .stats | .health => false
  | _ => true

namespace Ledger

def total (l : Ledger) : Nat := l.items.length

/-- The numbers in use. -/
def ids (l : Ledger) : List Nat := l.items.map Prod.fst

/-- Documents with the numbers from one to `count`, each named after its number. -/
def seeded (count : Nat) : Ledger where
  items := (List.range count).map fun i => (i + 1, .obj [("name", .str s!"object-{i + 1}")])
  nextId := count + 1

/-! ## Responses -/

/-- What a list server tells. -/
inductive Response where
  /-- Items from an offset on, and how many there are in all. -/
  | listing (offset total : Nat) (items : List (Nat × Json))
  | found (item : Nat × Json) (position? : Option Nat)
  | created (item : Nat × Json) (position : Nat)
  | removed (position id : Nat)
  /-- The request asks for too much. -/
  | refused (text : String)
  /-- There is nothing at the place that the request names. -/
  | missing (text : String)

namespace Response

def status : Response → Nat
  | listing _ _ _ | found _ _ | removed _ _ => 200
  | created _ _ => 201
  | refused _ => 400
  | missing _ => 404

/-- The record of an item, at its position if that is to be told.  The item was last
changed at the time that belongs to its number. -/
def record (time : Nat → Timestamp) (position? : Option Nat) (item : Nat × Json) : Json :=
  let fields := [("id", .int item.1), ("value", item.2), ("updated_at", .str (time item.1).render)]
  match position? with
  | some position => .obj (("position", .int position) :: fields)
  | none => .obj fields

/-- The record that is told.  Each item of a listing stands at its own position. -/
def json (time : Nat → Timestamp) : Response → Json
  | listing offset total items =>
    let objects := (items.zipIdx offset).map fun (item, position) =>
      record time (some position) item
    .obj [("offset", .int offset), ("total", .int total), ("objects", .arr objects)]
  | found item position? => record time position? item
  | created item position => record time (some position) item
  | removed position id =>
    .obj [("message", .str s!"Object {id} at position {position} deleted successfully"),
      ("position", .int position), ("id", .int id)]
  | refused text | missing text => .obj [("error", .str text)]

/-- The reply as it goes back to a client. -/
def reply (time : Nat → Timestamp) (r : Response) : Reply where
  status := r.status
  fields := [("content-type", "application/json")]
  body := (r.json time).render

end Response

/-! ## Requests -/

/-- The items from the offset on, up to the limit or the end of the list.  A page that
says nothing starts in front and has twenty items. -/
def list (page : Page) (l : Ledger) : Response :=
  let offset := page.offset?.getD 0
  let limit := page.limit?.getD 20
  if 500 < limit then .refused "Invalid request: Limit exceeds maximum of 500"
  else if l.total < offset then
    .missing s!"Range of 0 at {offset} out of bounds for size {l.total}"
  else .listing offset l.total ((l.items.drop offset).take (min limit (l.total - offset)))

/-- There is no item at the position. -/
def nothingAt (position : Nat) (l : Ledger) : Response :=
  .missing s!"Position {position} out of bounds for size {l.total}"

def read (position : Nat) (l : Ledger) : Response :=
  match l.items[position]? with
  | some item => .found item (some position)
  | none => l.nothingAt position

def readId (id : Nat) (l : Ledger) : Response :=
  match l.items.find? fun item => item.1 = id with
  | some item => .found item none
  | none => .missing s!"Not found: No object with id {id}"

def create (value : Json) (l : Ledger) : Response × Ledger :=
  let item := (l.nextId, value)
  (.created item l.total, ⟨l.items ++ [item], l.nextId + 1⟩)

def replace (position : Nat) (value : Json) (l : Ledger) : Response × Ledger :=
  match l.items[position]? with
  | some item =>
    let item := (item.1, value)
    (.found item (some position), { l with items := l.items.set position item })
  | none => (l.nothingAt position, l)

def remove (position : Nat) (l : Ledger) : Response × Ledger :=
  match l.items[position]? with
  | some item => (.removed position item.1, { l with items := l.items.eraseIdx position })
  | none => (l.nothingAt position, l)

/-- Respond to a request about documents; there is nothing to tell of the service. -/
def handle (l : Ledger) : Request → Response × Ledger
  | .list page => (l.list page, l)
  | .read position => (l.read position, l)
  | .readId id => (l.readId id, l)
  | .create value => l.create value
  | .replace position value => l.replace position value
  | .remove position => l.remove position
  | .stats | .health => (.missing "Not found: service", l)

/-- Respond to one request after another. -/
def run (l : Ledger) : List Request → List Response × Ledger
  | [] => ([], l)
  | request :: requests =>
    let (response, l) := l.handle request
    let (responses, l) := l.run requests
    (response :: responses, l)

example : ((seeded 3).list ⟨some 2, none⟩).reply (fun _ => default) =
    ⟨200, [("content-type", "application/json")],
      "\x7b\"offset\":2,\"total\":3,\"objects\":[\x7b\"position\":2,\"id\":3," ++
        "\"value\":\x7b\"name\":\"object-3\"\x7d," ++
        "\"updated_at\":\"1970-01-01T00:00:00Z\"\x7d]\x7d"⟩ := by
  cbv

/-! ## Numbers -/

/-- The numbers in use differ, and those to come are all new. -/
structure Orderly (l : Ledger) : Prop where
  nodup : l.ids.Nodup
  below : ∀ id ∈ l.ids, id < l.nextId
  total_lt : l.total < l.nextId

variable {l : Ledger} {count : Nat} {request : Request}

theorem orderly_seeded : (seeded count).Orderly where
  nodup := by
    have ids : (seeded count).ids = (List.range count).map (· + 1) := by
      simp [Ledger.ids, seeded, Function.comp_def]
    rw [ids]
    exact List.nodup_range.map fun i j eq => Nat.succ.inj eq
  below id mem := by
    simp only [Ledger.ids, seeded, List.map_map, List.mem_map, List.mem_range] at mem
    obtain ⟨i, lt, rfl⟩ := mem
    exact Nat.succ_lt_succ lt
  total_lt := by
    simp [total, seeded]

theorem ids_set {position : Nat} {item : Nat × Json} (value : Json)
    (here : l.items[position]? = some item) :
    ({ l with items := l.items.set position (item.1, value) } : Ledger).ids = l.ids := by
  obtain ⟨lt, rfl⟩ := List.getElem?_eq_some_iff.1 here
  have lt' : position < (l.items.map Prod.fst).length := by rwa [List.length_map]
  rw [ids, List.map_set, ← List.getElem_map Prod.fst (h := lt'), List.set_getElem_self]
  rfl

/-- No request makes the numbers repeat. -/
theorem Orderly.handle (orderly : l.Orderly) (request : Request) :
    (l.handle request).2.Orderly := by
  cases request with
  | list page => exact orderly
  | read position => exact orderly
  | readId id => exact orderly
  | stats => exact orderly
  | health => exact orderly
  | create value =>
    have ids : (l.create value).2.ids = l.ids ++ [l.nextId] := List.map_append
    refine ⟨?_, fun id mem => ?_, ?_⟩
    · show (l.create value).2.ids.Nodup
      rw [ids, List.nodup_append]
      refine ⟨orderly.nodup, List.nodup_singleton _, fun id mem id' mem' => ?_⟩
      cases List.mem_singleton.1 mem'
      exact Nat.ne_of_lt (orderly.below id mem)
    · have mem' : id ∈ (l.create value).2.ids := mem
      rw [ids, List.mem_append, List.mem_singleton] at mem'
      rcases mem' with old | rfl
      · exact Nat.lt_succ_of_lt (orderly.below id old)
      · exact Nat.lt_succ_self _
    · have total : (l.create value).2.total = l.total + 1 := List.length_append
      exact total ▸ Nat.succ_lt_succ orderly.total_lt
  | replace position value =>
    simp only [Ledger.handle, Ledger.replace]
    split
    · rename_i item here
      have ids := ids_set value here
      have total : (l.items.set position (item.1, value)).length < l.nextId := by
        rw [List.length_set]
        exact orderly.total_lt
      exact ⟨ids ▸ orderly.nodup, fun id mem => orderly.below id (ids ▸ mem), total⟩
    · exact orderly
  | remove position =>
    simp only [Ledger.handle, Ledger.remove]
    split
    · have sub : ({ l with items := l.items.eraseIdx position } : Ledger).ids.Sublist l.ids :=
        (List.eraseIdx_sublist _ _).map _
      refine ⟨orderly.nodup.sublist sub, fun id mem => orderly.below id (sub.subset mem), ?_⟩
      exact Nat.lt_of_le_of_lt (List.eraseIdx_sublist _ _).length_le orderly.total_lt
    · exact orderly

/-- The numbers handed out only grow. -/
theorem nextId_le_handle : l.nextId ≤ (l.handle request).2.nextId := by
  cases request with
  | create value => exact Nat.le_succ _
  | replace position value =>
    simp only [handle, replace]
    split <;> exact Nat.le_refl _
  | remove position =>
    simp only [handle, remove]
    split <;> exact Nat.le_refl _
  | _ => exact Nat.le_refl _

/-- An item that is created has the next number. -/
theorem id_of_created {item : Nat × Json} {position : Nat}
    (created : (l.handle request).1 = .created item position) : item.1 = l.nextId := by
  cases request with
  | create value => cases created; rfl
  | list page =>
    simp only [handle, list] at created
    repeat' split at created
    all_goals cases created
  | read position' =>
    simp only [handle, read] at created
    split at created <;> cases created
  | readId id =>
    simp only [handle, readId] at created
    split at created <;> cases created
  | replace position' value =>
    simp only [handle, replace] at created
    split at created <;> cases created
  | remove position' =>
    simp only [handle, remove] at created
    split at created <;> cases created
  | stats => cases created
  | health => cases created

/-! ## Runs -/

variable {requests : List Request} {m n : Nat}

theorem nextId_le_run : l.nextId ≤ (l.run requests).2.nextId := by
  induction requests generalizing l with
  | nil => exact Nat.le_refl _
  | cons request requests ih => exact Nat.le_trans nextId_le_handle ih

theorem nextId_take_le_run (n : Nat) :
    (l.run (requests.take n)).2.nextId ≤ (l.run requests).2.nextId := by
  induction requests generalizing l n with
  | nil => exact Nat.le_of_eq (by rw [List.take_nil])
  | cons request requests ih =>
    cases n with
    | zero => exact nextId_le_run
    | succ n => exact ih n

/-- A longer run has handed out more numbers. -/
theorem nextId_take_le (le : m ≤ n) :
    (l.run (requests.take m)).2.nextId ≤ (l.run (requests.take n)).2.nextId := by
  have shorter : requests.take m = (requests.take n).take m := by
    rw [List.take_take, Nat.min_eq_left le]
  exact shorter ▸ nextId_take_le_run m

theorem run_take_succ {request : Request} (at_n : requests[n]? = some request) :
    (l.run (requests.take (n + 1))).2 = ((l.run (requests.take n)).2.handle request).2 := by
  induction requests generalizing l n with
  | nil => cases at_n
  | cons r requests ih =>
    cases n with
    | zero => cases at_n; rfl
    | succ n => exact ih at_n

end Ledger

end ReadThrough
