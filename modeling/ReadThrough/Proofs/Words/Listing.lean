import ReadThrough.Proofs.Words.Positions
import ReadThrough.Proofs.Words.Reading
import ReadThrough.Service.Reply

/-!
# No read wraps

Reads through a cache, and the listing of documents that is read through one, get by with sums and
differences of words: none of them is too great or below zero, even at the very end of what a word
can count.

* `Browser.list?` is a listing with sums that may be refused, and `Browser.list?_eq` says that
  none is.
* `Cache.ReadsInWords` is what is said of all reads, and `Cache.words_suffice` puts it together.
-/

namespace ReadThrough

/-! ## Listing -/

namespace Browser

/-- The record of the documents of a page, each with its position. -/
def list? (page : Page) (b : Browser) : Option (Except Fault Json × Browser) :=
  match b.through Fronted.size with
  | (.error e, b) => some (.error e, b)
  | (.ok total, b) => do
    -- a difference that stops at zero
    let length := min page.limit (total - page.offset)
    let (answer, cache, shelf) ←
      Cache.getRange? Shelf.source page.offset length b.documents.cache b.documents.shelf
    let b := { b with documents := ⟨shelf, cache⟩ }
    match answer with
    | .error e => some (.error e, b)
    | .ok documents => do
      let placed ← positioned? page.offset 0 documents
      let records := placed.map fun p => p.1.placed (some p.2)
      some (.ok (.obj [("offset", .nat page.offset), ("total", .nat total),
        ("objects", .arr records)]), b)

theorem records_eq (start : Nat) (ds : List Document) :
    (ds.zipIdx start).map (fun p => p.1.placed (some p.2)) = Answer.records start ds := by
  induction ds generalizing start with
  | nil => rfl
  | cons d ds ih => exact congrArg (d.placed (some start) :: ·) (ih (start + 1))

variable {b b₁ : Browser} {page : Page} {total : Nat}

/-- Once it is told, the size is known. -/
theorem through_size (asked : b.through Fronted.size = (.ok total, b₁)) :
    (Cache.getSize Shelf.source b.documents.cache b.documents.shelf).1 = .ok total ∧
      b₁.documents.cache.size? = some total ∧
      b₁.documents.cache.table = b.documents.cache.table := by
  have told : (Cache.getSize Shelf.source b.documents.cache b.documents.shelf).1 = .ok total :=
    congrArg Prod.fst asked
  have after : b₁ = (b.through Fronted.size).2 := (congrArg Prod.snd asked).symm
  subst after
  exact ⟨told, Cache.size?_getSize told, Cache.table_getSize Shelf.source _ _⟩

theorem list?_eq (wf : b.documents.cache.table.WellFormed) (page : Page) :
    list? page b = some ((list page b).1.map Answer.json, (list page b).2) := by
  unfold list? list
  rcases asked : b.through Fronted.size with ⟨_ | total, b₁⟩
  · rfl
  · obtain ⟨-, -, same⟩ := through_size asked
    have wf₁ : b₁.documents.cache.table.WellFormed := same ▸ wf
    have read : b₁.through (·.getRange page.offset (min page.limit (total - page.offset))) =
        ((Cache.getRange Shelf.source page.offset (min page.limit (total - page.offset))
            b₁.documents.cache b₁.documents.shelf).1, _) := rfl
    dsimp only
    rw [Cache.getRange?_eq wf₁, read]
    dsimp only [Option.bind_eq_bind, Option.bind_some]
    rcases answer : (Cache.getRange Shelf.source page.offset
      (min page.limit (total - page.offset)) b₁.documents.cache b₁.documents.shelf).1 with
      e | documents
    · rfl
    · obtain ⟨whole, fits, -⟩ := Cache.getRange_inside wf₁ answer
      dsimp only
      rw [positioned?_eq (by omega)]
      dsimp only [Option.bind_some]
      rw [records_eq]
      rfl

/-- The documents of a listing stand at positions that the shelf has, if its size is what it
told. -/
theorem list_inside (wf : b.documents.cache.table.WellFormed) {offset : Nat}
    {documents : List Document}
    (listed : (list page b).1 = .ok (.listing offset total documents)) :
    (Cache.getSize Shelf.source b.documents.cache b.documents.shelf).1 = .ok total ∧
      offset + documents.length ≤ total := by
  unfold list at listed
  rcases asked : b.through Fronted.size with ⟨_ | total', b₁⟩
  · rw [asked] at listed
    cases listed
  · obtain ⟨told, known, same⟩ := through_size asked
    have wf₁ : b₁.documents.cache.table.WellFormed := same ▸ wf
    rw [asked] at listed
    dsimp only at listed
    rcases read : b₁.through (·.getRange page.offset (min page.limit (total' - page.offset))) with
      ⟨e | values, b₂⟩
    · rw [read] at listed
      cases listed
    · obtain ⟨whole, -, size, told', within⟩ := Cache.getRange_inside wf₁ (congrArg Prod.fst read)
      rw [Cache.getSize_of_known known] at told'
      rw [read] at listed
      cases told'
      cases listed
      exact ⟨told, whole ▸ within⟩

end Browser

/-! ## Reads of all kinds -/

namespace Cache

variable {σ ι α : Type} [DecidableEq ι]

/-- No read computes anything that does not fit into a word, and each stores and answers only
for positions of the source. -/
structure ReadsInWords (src : Source σ ι α) (c : Cache ι α) (s : σ) : Prop where
  told : ∀ size, (getSize src c s).1 = .ok size → size < wordLimit
  object : ∀ position, get? src position c s = some (get src position c s)
  objects : ∀ start length, getRange? src start length c s = some (getRange src start length c s)
  stored : ∀ q id value position, .store id value (some position) ∈ queryActs src q c s →
    ∃ size, (getSize src c s).1 = .ok size ∧ position < size
  kept : ∀ q, ∀ position ∈ (query src q c s).2.1.positions,
    position ∈ c.positions ∨ ∃ size, (getSize src c s).1 = .ok size ∧ position < size
  answer : ∀ position value, (get src position c s).1 = .ok value →
    ∃ size, (getSize src c s).1 = .ok size ∧ position < size
  answers : ∀ start length values, (getRange src start length c s).1 = .ok values →
    values.length = length ∧ ∃ size, (getSize src c s).1 = .ok size ∧ start + length ≤ size

variable {c : Cache ι α}

theorem InWords.reads (within : c.InWords) {src : Source σ ι α} {s : σ} (sized : src.SizedAt s) :
    ReadsInWords src c s where
  told := within.told_lt sized
  object position := get?_eq (within.told_lt sized) position
  objects start length := getRange?_eq within.table src start length s
  stored q id value position stored := backed_queryActs q _ stored
  kept q position mem := by
    rw [query_acts within.table] at mem
    refine (positions_replay within.table mem).imp_right fun ⟨id, value, stored⟩ => ?_
    exact backed_queryActs q _ stored
  answer position value answered := get_inside answered
  answers start length values answered := by
    obtain ⟨whole, -, inside⟩ := getRange_inside within.table answered
    exact ⟨whole, inside⟩

/-- **Words suffice.**  However a cache was used, as long as all sizes that it was told fit into
words, the ends of windows and ranges and the positions on the way are found with sums and
differences of words.  A range passes the check exactly if it lies within the size; the ends of a
window are found in as many steps as the chunk allows; and a source may tell any size and bring
anything, without one position outside of that size being stored or answered for.  The same goes
for listings of documents. -/
theorem words_suffice (arises : c.Arises) :
    (∀ start length size, size < wordLimit →
      (guardRange start length size = .ok () ↔ start + length ≤ size)) ∧
    (∀ position size, position < size → size < wordLimit →
      let w := c.missWindow position size
      c.missWindow? position size = some w ∧
        position - w.start ≤ c.sizing.chunk / 2 ∧
        w.stop - (position + 1) ≤ (c.sizing.chunk - 1) / 2) ∧
    (∀ first last, last < wordLimit →
      c.table.removePositions? first last = some (c.table.removePositions first last)) ∧
    (∀ position ∈ c.positions, position < wordLimit) ∧
    (∀ {σ : Type} (src : Source σ ι α) (s : σ), src.SizedAt s → ReadsInWords src c s) ∧
    ∀ (b : Browser) (page : Page), b.documents.cache.Arises →
      Browser.list? page b =
        some ((Browser.list page b).1.map Answer.json, (Browser.list page b).2) ∧
      ∀ offset total documents,
        (Browser.list page b).1 = .ok (.listing offset total documents) →
        offset + documents.length ≤ total := by
  have within := arises.inWords
  refine ⟨fun start length size fits => ?_, fun position size inside fits => ?_,
    fun first last fits => c.table.removePositions?_eq fits first, within.positions,
    fun src s sized => within.reads sized, fun b page arises => ?_⟩
  · rw [guardRange_eq_ok_iff]
    exact and_iff_right_of_imp fun le => Nat.lt_of_le_of_lt le fits
  · have back : position ≤ (c.missWindow position size).start + c.sizing.chunk / 2 :=
      Window.le_reachBack_add
    have forward :
        (c.missWindow position size).stop ≤ position + 1 + (c.sizing.chunk - 1) / 2 :=
      Window.reachForward_le_add
    exact ⟨missWindow?_eq inside fits, by omega, by omega⟩
  · have table := arises.inWords.table
    exact ⟨Browser.list?_eq table page, fun offset total documents listed =>
      (Browser.list_inside table listed).2⟩

/-- The end of a source that tells the greatest size there is, and a listing of one document. -/
theorem words_suffice_at_limit :
    let vast : Source Unit Nat Nat :=
      ⟨fun s => (.ok (wordLimit - 1), s), fun start length s => (.ok (List.range' start length), s),
        fun id s => (.ok (some id), s), fun _ => some⟩
    let sizing : Sizing := ⟨4, 4, by decide, by decide⟩
    let c : Cache Nat Nat := (empty sizing).run [.read vast () (.get 0)]
    let last := wordLimit - 2
    let document : Document := ⟨1, .null, default⟩
    let b : Browser := .new [document] sizing
    guardRange last 1 (wordLimit - 1) = .ok () ∧
      c.missWindow? last (wordLimit - 1) = some ⟨wordLimit - 4, wordLimit - 1⟩ ∧
      c.table.removePositions? 1 (wordLimit - 1) =
        some (c.table.removePositions 1 (wordLimit - 1)) ∧
      get? vast last c () = some (get vast last c ()) ∧
      (get vast last c ()).1 = .ok last ∧
      Browser.list? .first b = some (.ok (Answer.listing 0 1 [document]).json,
        (Browser.list .first b).2) := by
  intro vast sizing c last document b
  have sized : vast.SizedAt () := by
    intro size told
    cases told
    decide
  have arises : c.Arises :=
    ⟨sizing, [.read vast () (.get 0)], List.forall_mem_singleton.2 sized, rfl⟩
  obtain ⟨checks, windows, removals, -, reads, lists⟩ := words_suffice arises
  have ends : c.missWindow last (wordLimit - 1) = ⟨wordLimit - 4, wordLimit - 1⟩ := by
    decide +kernel
  have within : last + 1 ≤ wordLimit - 1 := by decide
  have listed : (Browser.list .first b).1 = .ok (.listing 0 1 [document]) := rfl
  refine ⟨(checks last 1 (wordLimit - 1) (by decide)).2 within, ?_, removals 1 _ (by decide),
    (reads vast () sized).object last, by decide +kernel, ?_⟩
  · rw [← ends]
    exact (windows last (wordLimit - 1) (by decide) (by decide)).1
  · have record := (lists b .first ⟨sizing, [], List.forall_mem_nil _, rfl⟩).1
    rw [listed] at record
    exact record

end Cache

end ReadThrough
