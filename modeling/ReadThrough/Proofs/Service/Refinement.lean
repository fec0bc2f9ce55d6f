import ReadThrough.Proofs.Fronted.Direct
import ReadThrough.Proofs.Service.Ledger
import ReadThrough.Service.Exchange

/-!
# A browser looks like a plain list

The times of documents apart, a browser with its cache and lock replies to every sequence
of requests about documents like a `Ledger`, which is nothing but a list.

* `Browser.Tells` relates what a handler answers to what the ledger responds, and
  `Tells.reply` compares the replies that come of it, byte by byte.
* `Browser.Mirrors` relates a browser to the ledger it looks like: the same documents
  under the same numbers, and a cache that is in step with the shelf.
* `Browser.Follows` is one request answered alike on both sides; there is one lemma for
  each request, and `Mirrors.handle` for all of them.
* `Browser.Looks` is what follows for a whole sequence: equal replies, numbers that are
  never given twice, and a lock that nobody holds in between.
-/

namespace ReadThrough

/-- The reply to an answer, or to a fault in place of one. -/
def Reply.ofOutcome : Except Fault Answer → Reply
  | .ok answer => .ofAnswer answer
  | .error e => .ofFault e

namespace Browser

/-- The numbers in use. -/
def ids (b : Browser) : List Nat := b.documents.shelf.items.map (·.id)

/-- Reply to requests one after another, each at its own time. -/
def serve (b : Browser) : List (Timestamp × Request) → List Reply × Browser
  | [] => ([], b)
  | (now, request) :: requests =>
    let (reply, b) := b.reply now (.ok request)
    let (replies, b) := b.serve requests
    (reply :: replies, b)

theorem reply_ok {b : Browser} {now : Timestamp} {request : Request} :
    b.reply now (.ok request) =
      (.ofOutcome (b.handle now request).1, (b.handle now request).2) := by
  unfold reply
  dsimp only
  split
  · rename_i answer b' handled
    rw [handled]
    rfl
  · rename_i e b' handled
    rw [handled]
    rfl

/-- The number and the value of a document. -/
def item (d : Document) : Nat × Json := (d.id, d.value)

/-! ## What is told -/

/-- What was answered is what the ledger responds.  The documents of a listing differ in
their numbers, so that each has a time of its own. -/
inductive Tells : Except Fault Answer → Ledger.Response → Prop where
  | listing (offset total : Nat) {documents : List Document}
      (nodup : (documents.map (·.id)).Nodup) :
      Tells (.ok (.listing offset total documents)) (.listing offset total (documents.map item))
  | found (d : Document) (position? : Option Nat) :
      Tells (.ok (.found d position?)) (.found (item d) position?)
  | created (d : Document) (position : Nat) :
      Tells (.ok (.created d position)) (.created (item d) position)
  | removed (position id : Nat) : Tells (.ok (.removed position id)) (.removed position id)
  | refused {e : Fault} (status : e.status = 400) : Tells (.error e) (.refused e.message)
  | missing {e : Fault} (status : e.status = 404) : Tells (.error e) (.missing e.message)

/-- Documents that differ in their numbers each have the time that goes with the number. -/
theorem exists_times {documents : List Document} (nodup : (documents.map (·.id)).Nodup) :
    ∃ time : Nat → Timestamp, ∀ d ∈ documents, time d.id = d.updatedAt := by
  induction documents with
  | nil => exact ⟨default, fun d mem => nomatch mem⟩
  | cons d documents ih =>
    rw [List.map_cons, List.nodup_cons] at nodup
    obtain ⟨time, times⟩ := ih nodup.2
    refine ⟨Function.update time d.id d.updatedAt, fun d' mem => ?_⟩
    rcases List.mem_cons.1 mem with rfl | mem
    · exact Function.update_self ..
    · have other : d'.id ≠ d.id := fun eq => nodup.1 (eq ▸ List.mem_map_of_mem mem)
      rw [Function.update_of_ne other]
      exact times d' mem

theorem placed_eq_record {time : Nat → Timestamp} {d : Document} (at_time : time d.id = d.updatedAt)
    (position? : Option Nat) :
    d.placed position? = Ledger.Response.record time position? (item d) := by
  rw [Document.placed, Document.fields, ← at_time]
  cases position? <;> rfl

/-- The records of a listing are those of its items, each with the position where it stands. -/
theorem records_eq_map {time : Nat → Timestamp} {documents : List Document}
    (times : ∀ d ∈ documents, time d.id = d.updatedAt) (offset : Nat) :
    Answer.records offset documents = ((documents.map item).zipIdx offset).map
      fun (item, position) => Ledger.Response.record time (some position) item := by
  induction documents generalizing offset with
  | nil => rfl
  | cons d documents ih =>
    rw [Answer.records, placed_eq_record (times d List.mem_cons_self),
      ih (fun d mem => times d (List.mem_cons_of_mem _ mem))]
    rfl

theorem Tells.of_created {d : Document} {position : Nat} {response : Ledger.Response}
    (tells : Tells (.ok (.created d position)) response) :
    response = .created (item d) position := by
  cases tells
  rfl

/-- What is told alike makes the same reply: the same status, fields and text. -/
theorem Tells.reply {outcome : Except Fault Answer} {response : Ledger.Response}
    (tells : Tells outcome response) :
    ∃ time, Reply.ofOutcome outcome = response.reply time := by
  cases tells with
  | listing offset total nodup =>
    obtain ⟨time, times⟩ := exists_times nodup
    refine ⟨time, ?_⟩
    simp only [Reply.ofOutcome, Reply.ofAnswer, Reply.json, Answer.json, records_eq_map times]
    rfl
  | found d position? =>
    let time := fun _ : Nat => d.updatedAt
    have record := placed_eq_record (show time d.id = d.updatedAt from rfl) position?
    refine ⟨time, ?_⟩
    simp only [Reply.ofOutcome, Reply.ofAnswer, Reply.json, Answer.json, record]
    rfl
  | created d position =>
    let time := fun _ : Nat => d.updatedAt
    have record := placed_eq_record (show time d.id = d.updatedAt from rfl) (some position)
    refine ⟨time, ?_⟩
    simp only [Reply.ofOutcome, Reply.ofAnswer, Reply.json, Answer.json, record]
    rfl
  | removed position id => exact ⟨default, rfl⟩
  | refused status =>
    refine ⟨default, ?_⟩
    rw [Reply.ofOutcome, Reply.ofFault, status]
    rfl
  | missing status =>
    refine ⟨default, ?_⟩
    rw [Reply.ofOutcome, Reply.ofFault, status]
    rfl

/-! ## Browser and ledger -/

/-- The browser holds the documents of the ledger, with a cache in step with them. -/
structure Mirrors (b : Browser) (l : Ledger) : Prop where
  inStep : b.documents.InStep
  identify : b.documents.shelf.identify = fun d => some d.id
  items : b.documents.shelf.items.map item = l.items
  nextId : b.nextId = l.nextId
  orderly : l.Orderly
  counted : l.nextId < wordLimit

/-- A request was answered alike by a browser and by a ledger. -/
structure Follows (b : Browser) (r : Except Fault Answer × Browser)
    (r' : Ledger.Response × Ledger) : Prop where
  tells : Tells r.1 r'.1
  mirrors : r.2.Mirrors r'.2
  lock : r.2.lock = b.lock

variable {b : Browser} {l : Ledger} {now : Timestamp}

theorem ids_eq (items : b.documents.shelf.items.map item = l.items) : b.ids = l.ids := by
  rw [Ledger.ids, ← items, List.map_map]
  rfl

/-- Objects numbered like an orderly ledger are told apart, and can be counted. -/
theorem lawful_of_items {s : Shelf Nat Document} (identify : s.identify = fun d => some d.id)
    (items : s.items.map item = l.items) (orderly : l.Orderly)
    (counted : l.nextId < wordLimit) : s.Lawful where
  distinct := by
    have ids : s.items.filterMap s.identify = l.ids := by
      rw [identify, Ledger.ids, ← items, List.map_map]
      exact congrFun List.filterMap_eq_map s.items
    exact Shelf.distinct_iff_nodup.2 (ids ▸ orderly.nodup)
  countable := by
    have length : s.size = l.total := by rw [Ledger.total, ← items, List.length_map]; rfl
    exact length ▸ Nat.lt_trans orderly.total_lt counted

namespace Mirrors

theorem size_eq (mirrors : b.Mirrors l) : b.documents.shelf.size = l.total := by
  rw [Ledger.total, ← mirrors.items, List.length_map]
  rfl

theorem item_eq (mirrors : b.Mirrors l) (position : Nat) :
    l.items[position]? = b.documents.shelf.items[position]?.map item := by
  rw [← mirrors.items, List.getElem?_map]

/-- A read through the cache answers like the shelf and changes nothing that shows. -/
theorem query (mirrors : b.Mirrors l) (q : Query Nat) :
    ∃ b', b.through (·.query q) = (b.documents.shelf.query q, b') ∧ b'.Mirrors l ∧
      b'.lock = b.lock ∧ b'.documents.shelf = b.documents.shelf := by
  obtain ⟨answer, same, inStep⟩ := mirrors.inStep.query q
  refine ⟨_, Prod.ext answer rfl, ⟨inStep, ?_, ?_, mirrors.nextId, mirrors.orderly,
    mirrors.counted⟩, rfl, same⟩
  · exact (congrArg Shelf.identify same).trans mirrors.identify
  · exact (congrArg (·.items.map item) same).trans mirrors.items

/-- An edit of the shelf is followed by the one of the list. -/
theorem edit (mirrors : b.Mirrors l) {β : Type} {e : Shelf Nat Document → Edit Nat Document β}
    (mutator : Shelf.Mutator e) {l' : Ledger}
    (items : (e b.documents.shelf).2.1.items.map item = l'.items) (orderly : l'.Orderly)
    (counted : l'.nextId < wordLimit) {b' : Browser} (nextId : b'.nextId = l'.nextId)
    (documents : b'.documents = (b.documents.edit e).2) : b'.Mirrors l' := by
  have identify : (e b.documents.shelf).2.1.identify = fun d => some d.id :=
    (mutator.covers _).identify.trans mirrors.identify
  have inStep : (b.documents.edit e).2.InStep :=
    mirrors.inStep.edit mutator (lawful_of_items identify items orderly counted)
  exact ⟨documents ▸ inStep, documents ▸ identify, documents ▸ items, nextId, orderly, counted⟩

end Mirrors

/-! ## Requests that read -/

theorem guardRange_beyond {offset size : Nat} (beyond : size < offset) :
    guardRange offset 0 size = .error (.rangeOutOfBounds offset 0 size) := by
  unfold guardRange checkedAdd?
  split
  · rename_i stop sum
    split at sum
    · cases sum
      exact if_neg (Nat.not_le.2 beyond)
    · cases sum
  · rfl

/-- A page reaches to the end of the shelf at most, and starts there at most. -/
theorem range_page {s : Shelf Nat Document} (countable : s.size < wordLimit)
    (offset limit : Nat) :
    s.range offset (min limit (s.size - offset)) =
      if s.size < offset then .error (.rangeOutOfBounds offset 0 s.size)
      else .ok ((s.items.drop offset).take (min limit (s.size - offset))) := by
  split
  · rename_i beyond
    have none : min limit (s.size - offset) = 0 := by omega
    rw [none, Shelf.range, guardRange_beyond beyond]
  · have within : guardRange offset (min limit (s.size - offset)) s.size = .ok () :=
      guardRange_eq_ok_iff.2 ⟨by omega, by omega⟩
    rw [Shelf.range, within]

/-- A page that is not too long, as the ledger lists it. -/
theorem ledger_list {page : Page} (short : page.limit ≤ 500) :
    l.list page =
      if l.total < page.offset then .missing (Fault.rangeOutOfBounds page.offset 0 l.total).message
      else .listing page.offset l.total
        ((l.items.drop page.offset).take (min page.limit (l.total - page.offset))) :=
  if_neg (Nat.not_lt.2 short)

theorem list_follows (mirrors : b.Mirrors l) {page : Page} (short : page.limit ≤ 500) :
    Follows b (list page b) (l.list page, l) := by
  obtain ⟨b₁, asked, mirrors₁, lock₁, same₁⟩ := mirrors.query .size
  obtain ⟨b₂, read, mirrors₂, lock₂, -⟩ := mirrors₁.query
    (.range page.offset (min page.limit (b.documents.shelf.size - page.offset)))
  have whole := range_page mirrors.inStep.lawful.countable page.offset page.limit
  have asked' : b.through Fronted.size = (.ok b.documents.shelf.size, b₁) := asked
  have read' : b₁.through (·.getRange page.offset
      (min page.limit (b.documents.shelf.size - page.offset))) = (_, b₂) := read
  simp only [list, asked', read', Shelf.query, same₁, whole, ledger_list short,
    ← mirrors.size_eq]
  by_cases beyond : b.documents.shelf.size < page.offset
  · simp only [if_pos beyond]
    exact ⟨.missing rfl, mirrors₂, lock₂.trans lock₁⟩
  · simp only [if_neg beyond, ← mirrors.items, ← List.map_drop, ← List.map_take]
    have nodup : b.ids.Nodup := ids_eq mirrors.items ▸ mirrors.orderly.nodup
    have part : ((b.documents.shelf.items.drop page.offset).take
        (min page.limit (b.documents.shelf.size - page.offset))).Sublist
          b.documents.shelf.items :=
      (List.take_sublist _ _).trans (List.drop_sublist _ _)
    exact ⟨.listing _ _ (nodup.sublist (part.map _)), mirrors₂, lock₂.trans lock₁⟩

/-- What the ledger tells of an empty place is what the shelf says of it. -/
theorem tells_nothingAt (mirrors : b.Mirrors l) (position : Nat) :
    Tells (.error (.outOfBounds position b.documents.shelf.size)) (l.nothingAt position) :=
  mirrors.size_eq ▸ .missing rfl

theorem read_follows (mirrors : b.Mirrors l) (position : Nat) :
    Follows b (read position b) (l.read position, l) := by
  obtain ⟨b', asked, mirrors', lock, -⟩ := mirrors.query (.get position)
  have asked' : b.through (·.get position) = (b.documents.shelf.get position, b') := asked
  simp only [read, asked', Ledger.read, mirrors.item_eq, Shelf.get]
  cases b.documents.shelf.items[position]? with
  | some d => exact ⟨.found d (some position), mirrors', lock⟩
  | none => exact ⟨tells_nothingAt mirrors position, mirrors', lock⟩

theorem readId_follows (mirrors : b.Mirrors l) (id : Nat) :
    Follows b (readId id b) (l.readId id, l) := by
  obtain ⟨b', asked, mirrors', lock, -⟩ := mirrors.query (.byId id)
  have asked' : b.through (·.getById id) = (.ok (b.documents.shelf.byId? id), b') := asked
  have found : l.items.find? (fun item => item.1 = id) =
      (b.documents.shelf.byId? id).map item := by
    have same : b.documents.shelf.hasId id = fun d => decide (d.id = id) := by
      funext d
      rw [Shelf.hasId, mirrors.identify]
      exact decide_eq_decide.2 Option.some_inj
    rw [Shelf.byId?, same, ← mirrors.items, List.find?_map]
    rfl
  simp only [readId, asked', Ledger.readId, found]
  cases b.documents.shelf.byId? id with
  | some d => exact ⟨.found d none, mirrors', lock⟩
  | none => exact ⟨.missing rfl, mirrors', lock⟩

/-! ## Requests that edit -/

theorem create_follows (mirrors : b.Mirrors l) (value : Json)
    (counted : (l.create value).2.nextId < wordLimit) :
    Follows b (create now value b) (l.create value) := by
  have next : nextNumber b.nextId = (l.create value).2.nextId := by
    rw [nextNumber, mirrors.nextId]
    exact Nat.mod_eq_of_lt counted
  refine ⟨?_, ?_, rfl⟩
  · simp only [Ledger.create, ← mirrors.size_eq, ← mirrors.nextId]
    exact .created ⟨b.nextId, value, now⟩ b.documents.shelf.size
  · refine mirrors.edit (.push ⟨b.nextId, value, now⟩) ?_ (mirrors.orderly.handle (.create value))
      counted next rfl
    show List.map item (b.documents.shelf.items ++ [⟨b.nextId, value, now⟩]) =
      l.items ++ [(l.nextId, value)]
    rw [List.map_append, mirrors.items, ← mirrors.nextId]
    rfl

theorem replace_follows (mirrors : b.Mirrors l) (position : Nat) (value : Json) :
    Follows b (replace now position value b) (l.replace position value) := by
  obtain ⟨b', asked, mirrors', lock, same⟩ := mirrors.query (.get position)
  have asked' : b.through (·.get position) = (b.documents.shelf.get position, b') := asked
  have orderly := mirrors.orderly.handle (.replace position value)
  simp only [replace, asked', Ledger.handle, Ledger.replace, mirrors.item_eq, Shelf.get]
    at orderly ⊢
  cases here : b.documents.shelf.items[position]? with
  | none => exact ⟨tells_nothingAt mirrors position, mirrors', lock⟩
  | some d =>
    rw [here] at orderly
    have edited : b'.documents.shelf.updateAt (d.revised value now) position =
        (.ok (), b.documents.shelf.withItems
          (b.documents.shelf.items.set position (d.revised value now)),
          Shelf.replacement position (b.documents.shelf.identify d)
            (b.documents.shelf.identify (d.revised value now))) := by
      simp only [Shelf.updateAt, same, here]
    have through : b'.through (·.edit (·.updateAt (d.revised value now) position)) =
        (.ok (), { b' with documents :=
          (b'.documents.edit (·.updateAt (d.revised value now) position)).2 }) := by
      simp only [Browser.through, Fronted.edit, edited]
    simp only [through]
    refine ⟨.found (d.revised value now) (some position), ?_, lock⟩
    refine mirrors'.edit (.updateAt (d.revised value now) position) ?_ orderly mirrors.counted
      mirrors'.nextId rfl
    simp only [edited, Shelf.withItems, ← mirrors.items, List.map_set]
    rfl

theorem remove_follows (mirrors : b.Mirrors l) (position : Nat) :
    Follows b (remove position b) (l.remove position) := by
  have orderly := mirrors.orderly.handle (.remove position)
  simp only [remove, Browser.through, Fronted.edit, Shelf.removeAt, Ledger.handle, Ledger.remove,
    mirrors.item_eq] at orderly ⊢
  cases here : b.documents.shelf.items[position]? with
  | none => exact ⟨tells_nothingAt mirrors position, mirrors, rfl⟩
  | some d =>
    rw [here] at orderly
    refine ⟨.removed position d.id, ?_, rfl⟩
    refine mirrors.edit (.removeAt position) ?_ orderly mirrors.counted mirrors.nextId ?_
    · simp only [Shelf.removeAt, here, Shelf.withItems, ← mirrors.items]
      exact (List.eraseIdx_map ..).symm
    · simp only [Fronted.edit, Shelf.removeAt, here]

/-! ## All requests -/

/-- A hold of a free lock is granted at once and given back without fail. -/
theorem during_follows (mirrors : b.Mirrors l) (free : b.lock = .free) (mode : Mode)
    {f : Browser → Except Fault Answer × Browser} {r' : Ledger.Response × Ledger}
    (follows : ∀ {b : Browser}, b.Mirrors l → Follows b (f b) r') :
    Follows b (b.during mode f) r' ∧ (b.during mode f).2.lock = .free := by
  have held : (b.hold mode).Mirrors l := ⟨mirrors.inStep, mirrors.identify, mirrors.items,
    mirrors.nextId, mirrors.orderly, mirrors.counted⟩
  have inside := follows held
  obtain ⟨lock, given⟩ : ∃ lock, Threads.release (f (b.hold mode)).2.lock () mode = .ok lock ∧
      lock = .free := by
    rw [inside.lock, hold, free]
    cases mode <;> exact ⟨_, rfl, rfl⟩
  have after : (b.during mode f).2 = { (f (b.hold mode)).2 with lock := .free } := by
    simp only [during, giveBack, given.1, given.2]
  refine ⟨⟨inside.tells, ?_, ?_⟩, by rw [after]⟩
  · rw [after]
    exact ⟨inside.mirrors.inStep, inside.mirrors.identify, inside.mirrors.items,
      inside.mirrors.nextId, inside.mirrors.orderly, inside.mirrors.counted⟩
  · rw [after, free]

/-- Every request about documents is answered like the ledger does, and the lock is
free again. -/
theorem Mirrors.handle (mirrors : b.Mirrors l) (free : b.lock = .free) (now : Timestamp)
    {request : Request}
    (about : request.concernsDocuments = true)
    (counted : (l.handle request).2.nextId < wordLimit) :
    Follows b (b.handle now request) (l.handle request) ∧
      (b.handle now request).2.lock = .free := by
  cases request with
  | list page =>
    simp only [Browser.handle, Ledger.handle, Page.flaw?]
    split
    · rename_i flaw long
      split at long
      · rename_i lt
        cases long
        have refused : l.list page = .refused (Fault.badRequest (.pageTooLong 500)).message :=
          if_pos lt
        exact ⟨⟨refused ▸ .refused rfl, mirrors, rfl⟩, free⟩
      · cases long
    · rename_i short
      split at short
      · cases short
      · rename_i ge
        exact during_follows mirrors free .read (list_follows · (Nat.not_lt.1 ge))
  | read position => exact during_follows mirrors free .read (read_follows · position)
  | readId id => exact during_follows mirrors free .read (readId_follows · id)
  | create value => exact during_follows mirrors free .write (create_follows · value counted)
  | replace position value =>
    exact during_follows mirrors free .write (replace_follows · position value)
  | remove position => exact during_follows mirrors free .write (remove_follows · position)
  | stats => cases about
  | health => cases about

/-! ## Sequences of requests -/

variable {requests : List (Timestamp × Request)}

/-- A whole run is replied to like the ledger does. -/
theorem Mirrors.serve (mirrors : b.Mirrors l) (free : b.lock = .free)
    (about : ∀ r ∈ requests, r.2.concernsDocuments = true)
    (counted : (l.run (requests.map (·.2))).2.nextId < wordLimit) :
    List.Forall₂ (fun reply response => ∃ time, reply = response.reply time)
        (b.serve requests).1 (l.run (requests.map (·.2))).1 ∧
      (b.serve requests).2.Mirrors (l.run (requests.map (·.2))).2 ∧
      (b.serve requests).2.lock = .free := by
  induction requests generalizing b l with
  | nil => exact ⟨.nil, mirrors, free⟩
  | cons r requests ih =>
    have counted' : (l.handle r.2).2.nextId < wordLimit :=
      Nat.lt_of_le_of_lt Ledger.nextId_le_run counted
    obtain ⟨follows, free'⟩ := mirrors.handle free r.1 (about r List.mem_cons_self) counted'
    obtain ⟨replies, mirrors', free''⟩ := ih follows.mirrors free'
      (fun r mem => about r (List.mem_cons_of_mem _ mem)) counted
    simp only [Browser.serve, reply_ok]
    exact ⟨.cons follows.tells.reply replies, mirrors', free''⟩

/-- From outside, requests to the browser look like requests to the ledger. -/
structure Looks (b : Browser) (l : Ledger) (requests : List (Timestamp × Request)) : Prop where
  /-- Each reply is that of the ledger, with some time for each document. -/
  replies : List.Forall₂ (fun reply response => ∃ time, reply = response.reply time)
    (b.serve requests).1 (l.run (requests.map (·.2))).1
  /-- At no moment is a number in use twice. -/
  nodup : ∀ n, (b.serve (requests.take n)).2.ids.Nodup
  /-- A number that is given to a new document was not in use at any moment before. -/
  fresh : ∀ n now request d position, requests[n]? = some (now, request) →
    ((b.serve (requests.take n)).2.handle now request).1 = .ok (.created d position) →
      ∀ m ≤ n, d.id ∉ (b.serve (requests.take m)).2.ids
  /-- Nobody holds the lock between two requests. -/
  unlocked : ∀ n, (b.serve (requests.take n)).2.lock.isLocked = false

/-- What holds in the end holds after each request before. -/
theorem Mirrors.serve_take (mirrors : b.Mirrors l) (free : b.lock = .free)
    (about : ∀ r ∈ requests, r.2.concernsDocuments = true)
    (counted : (l.run (requests.map (·.2))).2.nextId < wordLimit) (n : Nat) :
    (b.serve (requests.take n)).2.Mirrors (l.run ((requests.map (·.2)).take n)).2 ∧
      (b.serve (requests.take n)).2.lock = .free := by
  have counted' := Nat.lt_of_le_of_lt (Ledger.nextId_take_le_run n) counted
  rw [← List.map_take] at counted' ⊢
  exact (mirrors.serve free (fun r mem => about r (List.mem_of_mem_take mem)) counted').2

theorem Mirrors.looks (mirrors : b.Mirrors l) (free : b.lock = .free)
    (about : ∀ r ∈ requests, r.2.concernsDocuments = true)
    (counted : (l.run (requests.map (·.2))).2.nextId < wordLimit) : b.Looks l requests := by
  have moment := mirrors.serve_take free about counted
  constructor
  case replies => exact (mirrors.serve free about counted).1
  case nodup =>
    intro n
    have mirrors' := (moment n).1
    exact ids_eq mirrors'.items ▸ mirrors'.orderly.nodup
  case fresh =>
    intro n now request d position at_n created m le used
    have at_n' : (requests.map (·.2))[n]? = some request := by
      rw [List.getElem?_map, at_n]
      rfl
    have counted' := Nat.lt_of_le_of_lt (Ledger.nextId_take_le_run (n + 1)) counted
    rw [Ledger.run_take_succ at_n'] at counted'
    have follows := ((moment n).1.handle (moment n).2 now
      (about _ (List.mem_of_getElem? at_n)) counted').1
    have next : d.id = (l.run ((requests.map (·.2)).take n)).2.nextId :=
      Ledger.id_of_created (created ▸ follows.tells).of_created
    have mirrors' := (moment m).1
    rw [ids_eq mirrors'.items] at used
    have below := mirrors'.orderly.below d.id used
    have grows : (l.run ((requests.map (·.2)).take m)).2.nextId ≤
        (l.run ((requests.map (·.2)).take n)).2.nextId := Ledger.nextId_take_le le
    omega
  case unlocked =>
    intro n
    rw [(moment n).2]
    rfl

/-! ## From the start -/

theorem freshId_seeds {count : Nat} (counted : count + 1 < wordLimit) :
    freshId (Document.seeds count now) = count + 1 := by
  have ids : (Document.seeds count now).map (·.id) = (List.range count).map (· + 1) := by
    simp [Document.seeds, Function.comp_def]
  rw [freshId, ids]
  cases count with
  | zero => rfl
  | succ count =>
    have greatest : ((List.range (count + 1)).map (· + 1)).max? = some (count + 1) := by
      refine List.max?_eq_some_iff.2 ⟨?_, fun id mem => ?_⟩
      · exact List.mem_map_of_mem (List.mem_range.2 (Nat.lt_succ_self count))
      · obtain ⟨i, lt, rfl⟩ := List.mem_map.1 mem
        exact Nat.succ_le_of_lt (List.mem_range.1 lt)
    rw [greatest]
    exact Nat.mod_eq_of_lt counted

theorem mirrors_new {count : Nat} (sizing : Sizing) (counted : count + 1 < wordLimit) :
    (new (Document.seeds count now) sizing).Mirrors (Ledger.seeded count) := by
  have items : (Document.seeds count now).map item = (Ledger.seeded count).items := by
    rw [Document.seeds, List.map_map]
    rfl
  have lawful := lawful_of_items (s := ⟨Document.seeds count now, fun d => some d.id⟩) rfl items
    Ledger.orderly_seeded counted
  exact ⟨⟨lawful, .empty⟩, rfl, items, freshId_seeds counted, Ledger.orderly_seeded, counted⟩

/-- Whatever the sizes of its cache and however many documents it starts with, a browser
looks like the ledger of these documents, as long as its numbers can be counted. -/
theorem looks_like_ledger {s : Settings} (pos : 0 < s.chunk) (le : s.chunk ≤ s.capacity)
    (moment : Timestamp) (about : ∀ r ∈ requests, r.2.concernsDocuments = true)
    (counted : ((Ledger.seeded s.seedObjects).run (requests.map (·.2))).2.nextId < wordLimit) :
    ∃ b, ofSettings s moment = .ok b ∧ b.Looks (Ledger.seeded s.seedObjects) requests := by
  have sizing : s.sizing = .ok ⟨s.capacity, s.chunk, pos, le⟩ := by
    rw [Settings.sizing, Sizing.ofCounts, dif_pos pos, dif_pos le]
  refine ⟨new (Document.seeds s.seedObjects moment) ⟨s.capacity, s.chunk, pos, le⟩, ?_, ?_⟩
  · rw [ofSettings, sizing]
    rfl
  · have counted' : (Ledger.seeded s.seedObjects).nextId < wordLimit :=
      Nat.lt_of_le_of_lt Ledger.nextId_le_run counted
    exact (mirrors_new _ counted').looks rfl about counted

/-- The last document is taken away before another one is added, and the one in front is
read from the cache after it was given a new value.  One page starts behind the end, and
one is too long. -/
theorem looks_like_ledger_after_removal :
    ∃ b, ofSettings { Settings.standard with capacity := 2, chunk := 1, seedObjects := 3 }
        default = .ok b ∧
      b.Looks (Ledger.seeded 3) [(default, .read 0), (default, .remove 2),
        (default, .create .null), (default, .replace 0 .null), (default, .read 0),
        (default, .readId 3), (default, .list ⟨some 4, none⟩), (default, .list ⟨none, some 501⟩),
        (default, .list ⟨some 1, none⟩)] :=
  looks_like_ledger (by decide) (by decide) default (by decide) (by decide)

end Browser

end ReadThrough
