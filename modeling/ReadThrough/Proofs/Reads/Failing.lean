import ReadThrough.Proofs.Reads.Serving
import ReadThrough.Proofs.Source.Flaky
import ReadThrough.Proofs.Tower.Misses

/-!
# Reads that fail

A read may fail before it looks for any object, because the size is not to be had or the bounds
are exceeded, or because the source does not bring the objects it is asked for.  In either case
nothing has been stored yet, and all that was cached is still there.

* `Cache.Forestalled` and `Cache.LetDown` are the two kinds of failure.
* `Cache.Spared` says what is left of a cache after one.
* `Cache.query_spares` puts them together for all reads.
-/

namespace ReadThrough

variable {σ ι α : Type}

/-- The source answers for a range with this fault, or brings a wrong number of objects, which
is one. -/
def Source.Spoils (src : Source σ ι α) (start length : Nat) (s : σ) (e : Fault) : Prop :=
  (src.range start length s).1 = .error e ∨
    ∃ values, (src.range start length s).1 = .ok values ∧ values.length ≠ length ∧
      e = .inconsistent (.fetchLength length values.length)

namespace Query

/-- Whether the size of the source matters for the read. -/
def NeedsSize : Query ι → Prop
  | .byId _ => False
  | _ => True

/-- The bounds check of the read. -/
def guard (size : Nat) : Query ι → Except Fault Unit
  | .get position => guardPosition position size
  | .range start length => guardRange start length size
  | _ => .ok ()

/-- The entries that are served before the source is asked for objects, the last one first. -/
def served (c : Cache ι α) : Query ι → List (Entry ι α)
  | .range start length => (c.runEntries start (c.runLength start length)).reverse
  | _ => []

end Query

namespace Cache

/-- The read fails before any object is looked for. -/
inductive Forestalled (src : Source σ ι α) (c : Cache ι α) (s : σ) : Query ι → Fault → Prop
  | size {q : Query ι} {e : Fault} : q.NeedsSize → c.size? = none → (src.size s).1 = .error e →
    Forestalled src c s q e
  | bounds {q : Query ι} {size : Nat} {e : Fault} : (getSize src c s).1 = .ok size →
    q.guard size = .error e → Forestalled src c s q e

/-- The read fails because the source does not bring what it is asked for. -/
inductive LetDown [DecidableEq ι] (src : Source σ ι α) (c : Cache ι α) (s : σ) :
    Query ι → Fault → Prop
  | get {position size : Nat} {e : Fault} : (getSize src c s).1 = .ok size → position < size →
    c.coversPosition position = false →
    src.Spoils (c.missWindow position size).start (c.missWindow position size).length
      (getSize src c s).2.2 e → LetDown src c s (.get position) e
  | range {start length size : Nat} {e : Fault} : (getSize src c s).1 = .ok size →
    guardRange start length size = .ok () → c.runLength start length ≠ length →
    src.Spoils (start + c.runLength start length) (length - c.runLength start length)
      (getSize src c s).2.2 e → LetDown src c s (.range start length) e
  | byId {id : ι} {e : Fault} : c.coversId id = false → (src.byId id s).1 = .error e →
    LetDown src c s (.byId id) e

/-- The read gets all that it asks for, and then does not find the object in the cache. -/
inductive Lost [DecidableEq ι] (src : Source σ ι α) (c : Cache ι α) (s : σ) : Query ι → Fault → Prop
  | get {position size : Nat} {values : List α} : (getSize src c s).1 = .ok size →
    c.coversPosition position = false →
    (src.range (c.missWindow position size).start (c.missWindow position size).length
      (getSize src c s).2.2).1 = .ok values →
    values.length = (c.missWindow position size).length →
    Lost src c s (.get position) (.inconsistent (.missingAfterFetch position))

/-- All entries are there as before, in the same order apart from those at the `front`; nothing
but the size can have been learnt. -/
structure Spared [DecidableEq ι] (src : Source σ ι α) (s : σ) (c : Cache ι α)
    (front : List (Entry ι α)) (c' : Cache ι α) : Prop where
  same : c.table.Reordered c'.table
  perm : c'.table.entries.Perm c.table.entries
  entries : c'.table.entries = fronted front c.table.entries
  size : c'.size? = c.size? ∨
    c.size? = none ∧ ∃ size, (src.size s).1 = .ok size ∧ c'.size? = some size
  evictions : c'.stats.evictions = c.stats.evictions
  invalidations : c'.stats.invalidations = c.stats.invalidations

/-- Only lookups and answers of the source were counted. -/
structure OnlyCounted (c c' : Cache ι α) : Prop where
  table : c'.table = c.table
  size : c'.size? = c.size?
  evictions : c'.stats.evictions = c.stats.evictions
  invalidations : c'.stats.invalidations = c.stats.invalidations

variable {src : Source σ ι α} {c c' : Cache ι α} {s : σ} {start length : Nat} {e : Fault}

/-! ## Fetching -/

theorem fetchRange_eq_error_iff :
    (fetchRange src start length c s).1 = .error e ↔ src.Spoils start length s e := by
  unfold fetchRange Source.Spoils
  rcases src.range start length s with ⟨e' | values, s'⟩
  · exact ⟨Or.inl, fun either => either.elim id fun ⟨_, brought, _⟩ => by cases brought⟩
  · dsimp only
    split
    · rename_i whole
      refine ⟨fun failed => (by cases failed), fun either => ?_⟩
      rcases either with failed | ⟨values', brought, short, -⟩
      · cases failed
      · cases brought
        exact absurd whole short
    · rename_i short
      constructor
      · intro failed
        cases failed
        exact Or.inr ⟨values, rfl, short, rfl⟩
      · rintro (failed | ⟨values', brought, -, rfl⟩)
        · cases failed
        · cases brought
          rfl

/-- A miss that fetches has stored nothing so far. -/
theorem onlyCounted_fetchRange (src : Source σ ι α) (lookups start length : Nat) (c : Cache ι α)
    (s : σ) :
    OnlyCounted c (fetchRange src start length (c.count (·.miss lookups)) s).2.1 := by
  unfold fetchRange
  split
  · exact ⟨rfl, rfl, rfl, rfl⟩
  · dsimp only
    split <;> exact ⟨rfl, rfl, rfl, rfl⟩

theorem size?_getSize_cases (src : Source σ ι α) (c : Cache ι α) (s : σ) :
    (getSize src c s).2.1.size? = c.size? ∨
      c.size? = none ∧ ∃ size, (src.size s).1 = .ok size ∧
        (getSize src c s).2.1.size? = some size := by
  unfold getSize
  split
  · exact Or.inl rfl
  · rename_i unknown
    rcases src.size s with ⟨_ | size, s'⟩
    · exact Or.inl rfl
    · exact Or.inr ⟨unknown, size, rfl, rfl⟩

theorem getSize_eq_error_iff :
    (getSize src c s).1 = .error e ↔ c.size? = none ∧ (src.size s).1 = .error e := by
  cases known : c.size? with
  | some size =>
    rw [getSize_of_known known]
    exact ⟨fun failed => (by cases failed), fun ⟨unknown, _⟩ => (by cases unknown)⟩
  | none =>
    rw [(getSize_of_unknown known).1]
    exact ⟨fun failed => ⟨rfl, failed⟩, And.right⟩

variable [DecidableEq ι]

theorem AfterRun.nil (wf : c.table.WellFormed) : AfterRun c [] c :=
  ⟨wf, (fronted_nil _).symm, .refl, rfl, rfl, rfl⟩

theorem OnlyCounted.spared (counted : OnlyCounted c c') :
    Spared src s c [] c' where
  same := counted.table ▸ .refl
  perm := counted.table ▸ .refl _
  entries := by rw [counted.table, fronted_nil]
  size := Or.inl counted.size
  evictions := counted.evictions
  invalidations := counted.invalidations

theorem AfterRun.spared {c₁ : Cache ι α} {run : List (Entry ι α)} (wf : c.table.WellFormed)
    (served : AfterRun (getSize src c s).2.1 run c₁) (counted : OnlyCounted c₁ c') :
    Spared src s c run.reverse c' := by
  have same : c.table.Reordered c'.table := by
    rw [counted.table, ← table_getSize src c s]
    exact served.same
  refine ⟨same, same.perm wf (counted.table ▸ served.table), ?_, ?_, ?_, ?_⟩
  · rw [counted.table, served.entries, table_getSize]
  · rw [counted.size, served.size]
    exact size?_getSize_cases src c s
  · rw [counted.evictions, served.stats, stats_getSize]
  · rw [counted.invalidations, served.stats, stats_getSize]

/-! ## The reads -/

/-- A read that fails before any object is looked for has asked for the size at most. -/
theorem query_forestalled {q : Query ι} (forestalled : Forestalled src c s q e) :
    (query src q c s).1 = .error e ∧ (query src q c s).2 = (getSize src c s).2 := by
  cases forestalled with
  | size needed unknown failed =>
    have told := getSize_eq_error_iff.2 ⟨unknown, failed⟩
    rcases sized : getSize src c s with ⟨_ | size, c₁, s₁⟩
    · rw [sized] at told
      cases told
      cases q with
      | size => exact ⟨congrArg Prod.fst sized, congrArg Prod.snd sized⟩
      | get position =>
        rw [query, get, sized]
        exact ⟨rfl, rfl⟩
      | range start length =>
        rw [query, getRange, sized]
        exact ⟨rfl, rfl⟩
      | byId id => cases needed
    · rw [sized] at told
      cases told
  | @bounds size _ told outside =>
    rcases sized : getSize src c s with ⟨_ | size', c₁, s₁⟩
    · rw [sized] at told
      cases told
    · rw [sized] at told
      cases told
      cases q with
      | size => cases outside
      | get position =>
        change guardPosition position size = .error e at outside
        simp only [query, get, sized, outside]
        exact ⟨rfl, trivial⟩
      | range start length =>
        change guardRange start length size = .error e at outside
        simp only [query, getRange, sized, outside]
        exact ⟨rfl, trivial⟩
      | byId id => cases outside

omit [DecidableEq ι] in
/-- A read that needs the size fails before any object is looked for, or is within bounds. -/
theorem forestalled_or_within (src : Source σ ι α) (c : Cache ι α) (s : σ) {q : Query ι}
    (needed : q.NeedsSize) :
    (∃ e, Forestalled src c s q e) ∨
      ∃ size, (getSize src c s).1 = .ok size ∧ q.guard size = .ok () := by
  cases told : (getSize src c s).1 with
  | error e =>
    obtain ⟨unknown, failed⟩ := getSize_eq_error_iff.1 told
    exact Or.inl ⟨e, .size needed unknown failed⟩
  | ok size =>
    cases bounds : q.guard size with
    | error e => exact Or.inl ⟨e, .bounds told bounds⟩
    | ok _ => exact Or.inr ⟨size, rfl, bounds⟩

/-- A read that is answered has found the size and kept within it. -/
theorem exists_size_of_answered {q : Query ι} {v : q.Result α} (needed : q.NeedsSize)
    (answered : (query src q c s).1 = .ok v) :
    ∃ size, (getSize src c s).1 = .ok size ∧ q.guard size = .ok () := by
  refine (forestalled_or_within src c s needed).resolve_left fun ⟨e, forestalled⟩ => ?_
  cases (query_forestalled forestalled).1.symm.trans answered

/-- A miss whose window does not come has stored nothing. -/
theorem getMissing_spoiled {position size : Nat}
    (spoils : src.Spoils (c.missWindow position size).start (c.missWindow position size).length
      s e) :
    (getMissing src position size c s).1 = .error e ∧
      OnlyCounted c (getMissing src position size c s).2.1 := by
  have failed := fetchRange_eq_error_iff (c := c.count (·.miss 1)).2 spoils
  have counted := onlyCounted_fetchRange src 1 (c.missWindow position size).start
    (c.missWindow position size).length c s
  unfold getMissing
  dsimp only
  split
  · rename_i e' c' s' fetched
    rw [fetched] at failed counted
    cases failed
    exact ⟨rfl, counted⟩
  · rename_i values c' s' fetched
    rw [fetched] at failed
    cases failed

/-- What is left of a range that is not served, and does not come. -/
theorem getRest_spoiled (spoils : src.Spoils start length s e) :
    ∃ c' s', getRest src start length c s = (.error e, c', s') ∧ OnlyCounted c c' := by
  have failed := fetchRange_eq_error_iff (c := c.count (·.miss length)).2 spoils
  have counted := onlyCounted_fetchRange src length start length c s
  unfold getRest
  split
  · rename_i e' c' s' fetched
    rw [fetched] at failed counted
    cases failed
    exact ⟨c', s', rfl, counted⟩
  · rename_i values c' s' fetched
    rw [fetched] at failed
    cases failed

/-- A read for which the source does not bring the objects has only served what it could. -/
theorem query_letDown (wf : c.table.WellFormed) {q : Query ι} (letDown : LetDown src c s q e) :
    (query src q c s).1 = .error e ∧ Spared src s c (q.served c) (query src q c s).2.1 := by
  cases letDown with
  | @get position size _ told inside missing spoils =>
    have fetched := get_of_inside told inside
    rw [coversPosition_eq_false_iff.1 missing] at fetched
    have window : (getSize src c s).2.1.missWindow position size = c.missWindow position size :=
      missWindow_getSize position size
    obtain ⟨failed, counted⟩ := getMissing_spoiled (window.symm ▸ spoils)
    have wf' : (getSize src c s).2.1.table.WellFormed := by rwa [table_getSize]
    rw [query, fetched]
    exact ⟨failed, (AfterRun.nil wf').spared wf counted⟩
  | @range start length size _ told within short spoils =>
    obtain ⟨-, c₁, served, eq⟩ := getRange_of_inside wf told within
    obtain ⟨c₂, s₂, failed, counted⟩ := getRest_spoiled (c := c₁) spoils
    rw [if_neg short, failed] at eq
    rw [query, eq]
    exact ⟨rfl, served.spared wf counted⟩
  | @byId id _ absent failed =>
    have unknown : c.table.ofId? id = none :=
      Option.isNone_iff_eq_none.1 (Option.isSome_eq_false_iff.1 absent)
    rw [query, getById, unknown]
    dsimp only
    rcases asked : src.byId id s with ⟨e' | found, s'⟩
    · rw [asked] at failed
      cases failed
      have counted : OnlyCounted c (c.count (·.miss 1)) := ⟨rfl, rfl, rfl, rfl⟩
      exact ⟨rfl, counted.spared⟩
    · rw [asked] at failed
      cases failed

/-! ## All failures -/

theorem answerFetched_failed (wf : c.table.WellFormed) {identify : α → Option ι} {position : Nat}
    {fetched? : Option α} (failed : (c.answerFetched identify position fetched?).1 = .error e) :
    e = .inconsistent (.missingAfterFetch position) := by
  unfold answerFetched at failed
  split at failed
  · rename_i h found
    obtain ⟨x, here, -⟩ := wf.exists_of_atPosition? found
    simp only [wf.entry?_promote here] at failed
    cases failed
  · split at failed
    · split at failed
      · cases failed
      · cases failed
        rfl
    · cases failed
      rfl

/-- If the window of a miss comes, the object can only be missing from the cache. -/
theorem getMissing_failed (wf : c.table.WellFormed) {position size : Nat}
    (failed : (getMissing src position size c s).1 = .error e) :
    src.Spoils (c.missWindow position size).start (c.missWindow position size).length s e ∨
      ∃ values, (src.range (c.missWindow position size).start
          (c.missWindow position size).length s).1 = .ok values ∧
        values.length = (c.missWindow position size).length ∧
        e = .inconsistent (.missingAfterFetch position) := by
  unfold getMissing at failed
  dsimp only at failed
  split at failed
  · rename_i e' c' s' fetched
    cases failed
    exact Or.inl (fetchRange_eq_error_iff.1 (congrArg Prod.fst fetched))
  · rename_i values c' s' fetched
    obtain ⟨brought, whole, rfl⟩ := fetchRange_of_ok fetched
    have wf' : ((c.count (·.miss 1)).count (·.fetch values.length)).table.WellFormed := wf
    exact Or.inr ⟨values, congrArg Prod.fst brought, whole,
      answerFetched_failed (keepAll_wellFormed wf') failed⟩

theorem get_failed (wf : c.table.WellFormed) {position : Nat}
    (failed : (get src position c s).1 = .error e) :
    Forestalled src c s (.get position) e ∨ LetDown src c s (.get position) e ∨
      Lost src c s (.get position) e := by
  rcases forestalled_or_within src c s (q := .get position) trivial with
    ⟨e', forestalled⟩ | ⟨size, told, bounds⟩
  · cases (query_forestalled forestalled).1.symm.trans failed
    exact Or.inl forestalled
  · have inside := guardPosition_eq_ok_iff.1 bounds
    have wf' : (getSize src c s).2.1.table.WellFormed := by rwa [table_getSize]
    have looked := get_of_inside told inside
    cases found : c.table.atPosition? position with
    | some h =>
      obtain ⟨x, here, -⟩ := wf.exists_of_atPosition? found
      rw [← table_getSize src c s] at here
      rw [found] at looked
      dsimp only at looked
      rw [looked, hit_eq wf' here] at failed
      cases failed
    | none =>
      have missing := coversPosition_eq_false_iff.2 found
      rw [found] at looked
      dsimp only at looked
      rw [looked] at failed
      have missed := getMissing_failed wf' failed
      rw [missWindow_getSize] at missed
      rcases missed with spoils | ⟨values, brought, whole, rfl⟩
      · exact Or.inr (Or.inl (.get told inside missing spoils))
      · exact Or.inr (Or.inr (.get told missing brought whole))

/-- The rest of a range fails only with the fetch. -/
theorem getRest_failed (failed : (getRest src start length c s).1 = .error e) :
    src.Spoils start length s e := by
  refine (fetchRange_eq_error_iff (c := c.count (·.miss length))).1 ?_
  unfold getRest at failed
  rcases fetched : fetchRange src start length (c.count (·.miss length)) s with
    ⟨e' | values, c', s'⟩ <;> rw [fetched] at failed <;> cases failed
  rfl

theorem getRange_failed (wf : c.table.WellFormed)
    (failed : (getRange src start length c s).1 = .error e) :
    Forestalled src c s (.range start length) e ∨ LetDown src c s (.range start length) e := by
  rcases forestalled_or_within src c s (q := .range start length) trivial with
    ⟨e', forestalled⟩ | ⟨size, told, within⟩
  · cases (query_forestalled forestalled).1.symm.trans failed
    exact Or.inl forestalled
  · obtain ⟨-, c₁, -, eq⟩ := getRange_of_inside wf told within
    rw [eq] at failed
    split at failed
    · cases failed
    · rename_i short
      refine Or.inr (.range told within short (getRest_failed (c := c₁) ?_))
      revert failed
      rcases getRest src _ _ c₁ (getSize src c s).2.2 with ⟨e' | rest, c₂, s₂⟩ <;> intro failed <;>
        cases failed
      rfl

theorem getById_failed (wf : c.table.WellFormed) {id : ι}
    (failed : (getById src id c s).1 = .error e) : LetDown src c s (.byId id) e := by
  unfold getById at failed
  cases found : c.table.ofId? id with
  | some h =>
    obtain ⟨x, here, -⟩ := wf.exists_of_ofId? found
    rw [found] at failed
    dsimp only at failed
    rw [hit_eq wf here] at failed
    cases failed
  | none =>
    have absent : c.coversId id = false := by rw [coversId, found, Option.isSome_none]
    rw [found] at failed
    dsimp only at failed
    rcases asked : src.byId id s with ⟨e' | _ | v, s'⟩ <;> rw [asked] at failed <;> cases failed
    exact .byId absent (congrArg Prod.fst asked)

/-- There are no other failures. -/
theorem query_failed (wf : c.table.WellFormed) {q : Query ι}
    (failed : (query src q c s).1 = .error e) :
    Forestalled src c s q e ∨ LetDown src c s q e ∨ Lost src c s q e := by
  cases q with
  | size =>
    obtain ⟨unknown, failed⟩ := getSize_eq_error_iff.1 failed
    exact Or.inl (.size trivial unknown failed)
  | get position => exact get_failed wf failed
  | range start length => exact (getRange_failed wf failed).imp_right Or.inl
  | byId id => exact Or.inr (Or.inl (getById_failed wf failed))

/-- **A read that fails leaves all that is cached where it is.**  However a cache was used before
and whatever the source does, a read whose size is not to be had, or that is out of bounds, counts
for nothing and moves nothing.  One that the source lets down has at most promoted the cached
start of its range.  All other reads succeed, apart from a lookup whose window came whole and
did not leave the object in the cache. -/
theorem query_spares {sizing : Sizing} (reachable : Reachable sizing c) (src : Source σ ι α)
    (s : σ) (q : Query ι) :
    let read := query src q c s
    (∀ e, Forestalled src c s q e →
      read.1 = .error e ∧ Spared src s c [] read.2.1 ∧ read.2.1.stats = c.stats) ∧
    (∀ e, LetDown src c s q e → read.1 = .error e ∧ Spared src s c (q.served c) read.2.1) ∧
    ∀ e, read.1 = .error e → Forestalled src c s q e ∨ LetDown src c s q e ∨ Lost src c s q e := by
  have wf : c.table.WellFormed := reachable.stocked.1.table
  have wf' : (getSize src c s).2.1.table.WellFormed := by rwa [table_getSize]
  refine ⟨fun e forestalled => ?_, fun e letDown => query_letDown wf letDown,
    fun e failed => query_failed wf failed⟩
  obtain ⟨failed, after⟩ := query_forestalled forestalled
  rw [after]
  exact ⟨failed, (AfterRun.nil wf').spared wf ⟨rfl, rfl, rfl, rfl⟩, stats_getSize⟩

/-- The source fails when two of four objects have been served. -/
theorem query_spares_after_run :
    let shelf : Shelf Nat Nat := ⟨[10, 11, 12, 13], some⟩
    let read (position : Nat) (c : Cache Nat Nat) : Cache Nat Nat :=
      (query Shelf.source (.range position 1) c shelf).2.1
    let c := read 0 (read 1 (empty ⟨2, 2, by decide, by decide⟩))
    let failing : Flaky Nat Nat := ⟨shelf, [some (.refused "down" none)], false⟩
    let front : List (Entry Nat Nat) := [⟨11, 11, some 1⟩, ⟨10, 10, some 0⟩]
    (query Flaky.source (.range 0 4) c failing).1 = .error (.unavailable "down" none) ∧
      c.table.entries = front.reverse ∧
      Spared Flaky.source failing c front (query Flaky.source (.range 0 4) c failing).2.1 := by
  intro shelf read c failing front
  have reachable : Reachable ⟨2, 2, by decide, by decide⟩ c :=
    .query _ _ _ (.query _ _ _ .empty)
  have told : (getSize Flaky.source c failing).1 = .ok 4 := by rfl
  have count : c.runLength 0 4 = 2 := by decide
  have served : Query.served c (.range 0 4) = front := by decide
  have spoils : Flaky.source.Spoils (0 + c.runLength 0 4) (4 - c.runLength 0 4)
      (getSize Flaky.source c failing).2.2 (.unavailable "down" none) := Or.inl (by rw [count]; rfl)
  have letDown : LetDown Flaky.source c failing (.range 0 4) (.unavailable "down" none) :=
    .range told (by decide) (by rw [count]; decide) spoils
  obtain ⟨failed, spared⟩ :=
    (query_spares reachable Flaky.source failing (.range 0 4)).2.1 _ letDown
  rw [served] at spared
  exact ⟨failed, by decide, spared⟩

end Cache

end ReadThrough
