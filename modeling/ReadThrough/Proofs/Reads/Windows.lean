import ReadThrough.Proofs.Fronted.Repeats
import ReadThrough.Proofs.Reads.Ranges

/-!
# Windows

A window is no longer than the cache, so all of it is there after a miss: the objects are stored
one after the other, and what makes room for them never makes one of them go in the end.

* `Cache.Windowed` is what a miss that is answered leaves behind.
* `Cache.get_of_cached`: a position that is cached is served without a call.
* `Cache.get_window_survives` puts them together.
-/

namespace ReadThrough.Cache

variable {σ ι α : Type} [DecidableEq ι]

variable {src : Source σ ι α} {inv : σ → Prop} {s : Shelf ι α} {c c' : Cache ι α} {x : σ}
variable {position size : Nat} {v : α} {e : Entry ι α}

/-! ## What is cached -/

theorem get_of_found (wf : c.table.WellFormed) (told : (getSize src c x).1 = .ok size)
    (inside : position < size) (found : c.table.entryAt? position = some e) :
    get src position c x =
      (.ok e.value, (getSize src c x).2.1.perform (.hit e.id), (getSize src c x).2.2) := by
  obtain ⟨h, at_h, here⟩ := exists_of_entryAt? found
  rw [← table_getSize src c x] at wf here
  rw [get_of_inside told inside, at_h]
  dsimp only
  rw [← hit_snd wf here, hit_eq wf here]

/-- A position that is cached is served without a call, whatever the source is. -/
theorem get_of_cached (wf : c.table.WellFormed) (known : c.size? = some size)
    (inside : position < size) (found : c.table.entryAt? position = some e)
    (src : Source σ ι α) (x : σ) :
    get src position c x = (.ok e.value, c.perform (.hit e.id), x) := by
  have told : (getSize src c x).1 = .ok size := congrArg Prod.fst (getSize_of_known known)
  rw [get_of_found wf told inside found, getSize_of_known known]

theorem stats_perform_hit (id : ι) : (c.perform (.hit id)).stats = c.stats.hit :=
  congrArg Stats.hit (stats_touch id)

theorem reordered_perform_hit (wf : c.table.WellFormed)
    (found : c.table.entryAt? position = some e) :
    c.table.Reordered (c.perform (.hit e.id)).table := by
  obtain ⟨h, -, here⟩ := exists_of_entryAt? found
  have moved := wf.reordered_promote here
  rw [perform, touch_eq wf here]
  exact moved

/-- An entry for a position is the one that is cached for it. -/
theorem entryAt?_of_mem (wf : c.table.WellFormed) (kept : s.entry? position = some e)
    (mem : e ∈ c.table.entries) : c.table.entryAt? position = some e :=
  wf.entryAt?_eq_some_iff.2 ⟨mem, (Shelf.entry?_eq_some_iff.1 kept).2.2⟩

/-! ## A miss -/

/-- The positions of a window in the order of use after a miss. -/
def windowOrder (position : Nat) (w : Window) : List Nat :=
  position :: (List.range' w.start w.length).reverse.filter fun q => q ≠ position

/-- What a miss for a position of the shelf leaves behind. -/
structure Windowed (s : Shelf ι α) (c : Cache ι α) (position : Nat) (w : Window)
    (c' : Cache ι α) : Prop where
  entries : ∃ back, c'.table.entries = s.entries (windowOrder position w) ++ back
  outside : ∀ q, q < w.start ∨ w.stop ≤ q → c'.coversPosition q = true →
    c.coversPosition q = true
  size : c'.size? = some s.size
  fetches : c'.stats.fetches = c.stats.fetches + 1
  fetchedObjects : c'.stats.fetchedObjects = c.stats.fetchedObjects + w.length

/-- A miss that is answered has brought its window, kept it and recalled the object. -/
theorem getMissing_answered (wf : c.table.WellFormed)
    (answered : (getMissing src position size c x).1 = .ok v) :
    let w := c.missWindow position size
    ∃ values x', src.range w.start w.length x = (.ok values, x') ∧ values.length = w.length ∧
      let kept := ((c.count (·.miss 1)).count (·.fetch values.length)).keepAll (src.identify x')
        w.start values
      (getMissing src position size c x).2.1 = kept.replay (kept.recallActs position) := by
  intro w
  unfold getMissing at answered ⊢
  dsimp only at answered ⊢
  rcases fetched : fetchRange src (c.missWindow position size).start
    (c.missWindow position size).length (c.count (·.miss 1)) x with ⟨e | values, c₁, x'⟩
  · rw [fetched] at answered
    cases answered
  · obtain ⟨brought, whole, rfl⟩ := fetchRange_of_ok fetched
    have wf' : ((c.count (·.miss 1)).count (·.fetch values.length)).table.WellFormed := wf
    exact ⟨values, x', brought, whole, answerFetched_eq (keepAll_wellFormed wf') _ _ _⟩

/-- All objects of a window lead the cache once they are kept, the last one first. -/
theorem entries_keepAll_window (identified : s.Identified) (wf : c.table.WellFormed) {start : Nat}
    {values : List α} (run : (s.answers fun _ => False).run start values)
    (short : values.length ≤ c.sizing.capacity) :
    ∃ back, (c.keepAll s.identify start values).table.entries =
      s.entries (List.range' start values.length).reverse ++ back := by
  have split : c.table.entries =
      (s.entries (List.range' start 0)).reverse ++ c.table.entries := rfl
  obtain ⟨back, kept⟩ := entries_keepAll_run identified wf start 0 (Nat.zero_le _) split
    fun i v at_i => Shelf.answers_nothing_item.1 (run i v at_i)
  rw [Nat.zero_add, List.take_of_length_le] at kept
  · exact ⟨back, kept⟩
  · refine Nat.le_trans (List.length_filterMap_le _ _) ?_
    rwa [List.length_reverse, List.length_range']

/-- A miss that is answered is one more fetch, of the whole window. -/
theorem stats_getMissing_answered (wf : c.table.WellFormed)
    (answered : (getMissing src position size c x).1 = .ok v) :
    (getMissing src position size c x).2.1.stats.fetches = c.stats.fetches + 1 ∧
      (getMissing src position size c x).2.1.stats.fetchedObjects =
        c.stats.fetchedObjects + (c.missWindow position size).length := by
  obtain ⟨values, x', brought, whole, -⟩ := getMissing_answered wf answered
  have books := books_replay (c := c) (missActs src position size c x)
  rw [← getMissing_eq wf] at books
  have answers : answers (missActs src position size c x) =
      [(c.missWindow position size).length] := by
    rw [answers_missActs wf, Source.rangeAnswer, brought]
    exact congrArg ([·]) whole
  rw [books.fetches, books.fetchedObjects, answers]
  exact ⟨rfl, rfl⟩

theorem windowed_getMissing (identified : s.Identified) (shows : src.Shows s inv)
    (stocked : c.Stocked (s.answers fun _ => False)) (hx : inv x) (known : c.size? = some s.size)
    (inside : position < s.size)
    (answered : (getMissing src position s.size c x).1 = .ok v) :
    Windowed s c position (c.missWindow position s.size)
      (getMissing src position s.size c x).2.1 := by
  obtain ⟨first, last, stop, -, short⟩ := fits_missWindow (c := c) inside
  obtain ⟨values, x', brought, whole, eq⟩ := getMissing_answered stocked.table answered
  have answer := shows.truthful.range (c.missWindow position s.size).start
    (c.missWindow position s.size).length x hx
  rw [brought] at answer
  obtain ⟨hx', run⟩ := answer
  rw [shows.identify x' hx'] at eq
  let counted := (c.count (·.miss 1)).count (·.fetch values.length)
  let kept := counted.keepAll s.identify (c.missWindow position s.size).start values
  have wf : counted.table.WellFormed := stocked.table
  have wf' : kept.table.WellFormed := keepAll_wellFormed wf
  obtain ⟨back, split⟩ : ∃ back, kept.table.entries = _ ++ back :=
    entries_keepAll_window identified wf (run values rfl whole) (whole ▸ short)
  rw [whole] at split
  -- the object is in the window, so that it is there to be recalled
  obtain ⟨e, entry⟩ := identified.exists_entry? inside
  have mem : e ∈ kept.table.entries := by
    rw [split]
    refine List.mem_append_left _ (List.mem_filterMap.2 ⟨position, ?_, entry⟩)
    exact List.mem_reverse.2 (List.mem_range'_1.2 ⟨first, stop ▸ last⟩)
  have recalled : kept.recallActs position = [.promote e.id] := by
    rw [recallActs, entryAt?_of_mem wf' entry mem]
  have after : (getMissing src position s.size c x).2.1 = kept.touch e.id :=
    eq.trans (congrArg kept.replay recalled)
  have front := entries_touch wf' mem
  obtain ⟨fetches, fetchedObjects⟩ := stats_getMissing_answered stocked.table answered
  refine ⟨?_, fun q outside covered => ?_, ?_, fetches, fetchedObjects⟩
  · rw [after, front, split, List.filter_append, identified.distinct.entries_filter entry,
      windowOrder, Shelf.entries_cons entry]
    exact ⟨_, rfl⟩
  · rw [after] at covered
    obtain ⟨y, found⟩ := (touch_wellFormed wf').covers_eq_true_iff.1 covered
    obtain ⟨mem_y, at_y⟩ := (touch_wellFormed wf').entryAt?_eq_some_iff.1 found
    rw [front, List.mem_cons, List.mem_filter] at mem_y
    rcases mem_y with rfl | ⟨mem_y, -⟩
    · cases at_y.symm.trans (Shelf.entry?_eq_some_iff.1 entry).2.2
      omega
    · obtain ⟨before, -⟩ := survives_keepAll wf mem_y at_y (by omega)
      exact stocked.table.covers_eq_true_iff.2
        ⟨y, stocked.table.entryAt?_eq_some_iff.2 ⟨before, at_y⟩⟩
  · rw [after, size?_touch, ← known]
    exact keepAll_size?

theorem mem_windowOrder_iff {w : Window} {q : Nat} : q ∈ windowOrder position w ↔
    q = position ∨ w.start ≤ q ∧ q < w.start + w.length := by
  rw [windowOrder, List.mem_cons, List.mem_filter, List.mem_reverse, List.mem_range'_1,
    decide_eq_true_eq]
  constructor
  · exact Or.imp_right And.left
  · intro either
    by_cases same : q = position
    · exact Or.inl same
    · exact Or.inr ⟨either.resolve_left same, same⟩

/-- All positions of the window are cached. -/
theorem Windowed.cached {w : Window} (windowed : Windowed s c position w c')
    (wf' : c'.table.WellFormed) {q : Nat} (mem : q ∈ windowOrder position w)
    (kept : s.entry? q = some e) : c'.table.entryAt? q = some e := by
  obtain ⟨back, split⟩ := windowed.entries
  refine entryAt?_of_mem wf' kept ?_
  rw [split]
  exact List.mem_append_left _ (List.mem_filterMap.2 ⟨q, mem, kept⟩)

/-! ## Lookups -/

/-- A lookup of a position that exists and is not cached leaves its window behind. -/
theorem windowed_get (identified : s.Identified) (shows : src.Shows s inv)
    (stocked : c.Stocked (s.answers fun _ => False)) (hx : inv x)
    (told : (getSize src c x).1 = .ok s.size) (inside : position < s.size)
    (missing : c.coversPosition position = false)
    (answered : (get src position c x).1 = .ok v) :
    Windowed s c position (c.missWindow position s.size) (get src position c x).2.1 := by
  have sized := getSize_served shows.truthful stocked hx
  have looked := get_of_inside told inside
  rw [coversPosition_eq_false_iff.1 missing] at looked
  dsimp only at looked
  rw [looked] at answered ⊢
  have windowed := windowed_getMissing identified shows sized.stocked sized.inv
    (size?_getSize told) inside answered
  rw [missWindow_getSize] at windowed
  refine ⟨windowed.entries, fun q outside covered => ?_, windowed.size, ?_, ?_⟩
  · rw [← coversPosition_getSize src c x]
    exact windowed.outside q outside covered
  · rw [windowed.fetches, stats_getSize]
  · rw [windowed.fetchedObjects, stats_getSize]

/-- What was looked up is cached, and the size is known. -/
theorem found_of_answered (identified : s.Identified) (shows : src.Shows s inv)
    (stocked : c.Stocked (s.answers fun _ => False)) (hx : inv x)
    (told : (getSize src c x).1 = .ok s.size) (inside : position < s.size)
    (answered : (get src position c x).1 = .ok v) :
    (get src position c x).2.1.size? = some s.size ∧
      ∃ e, (get src position c x).2.1.table.entryAt? position = some e := by
  cases covered : c.coversPosition position with
  | true =>
    obtain ⟨e, found⟩ := stocked.table.covers_eq_true_iff.1 covered
    rw [get_of_found stocked.table told inside found]
    have wf : (getSize src c x).2.1.table.WellFormed := by
      rw [table_getSize]
      exact stocked.table
    rw [← table_getSize src c x] at found
    have moved := reordered_perform_hit wf found
    exact ⟨size?_touch.trans (size?_getSize told), e, (moved.entryAt? position).trans found⟩
  | false =>
    obtain ⟨e, kept⟩ := identified.exists_entry? inside
    have windowed := windowed_get identified shows stocked hx told inside covered answered
    have wf := (get_served shows.truthful stocked hx position).stocked.table
    exact ⟨windowed.size, e, windowed.cached wf (mem_windowOrder_iff.2 (Or.inl rfl)) kept⟩

/-- **A window survives that it is stored.**  However a cache was used before, as long as it
agrees with the objects that the source brings and these have different identities, a position
that was read is read again without a call and with the same answer.  If it was not cached
before, its window was fetched in one call; then its object leads the cache, and right behind it
come the others of the window, the last one first.  Each of them is read next without a call. -/
theorem get_window_survives {sizing : Sizing} (reachable : Reachable sizing c)
    (identified : s.Identified) (coherent : c.Coherent s) (shows : src.Shows s inv) (hx : inv x)
    (log : List (Call ι α)) (answered : (get src.traced position c (x, log)).1 = .ok v) :
    let read := get src.traced position c (x, log)
    let asked := if c.size?.isSome then log else .size :: log
    let w := c.missWindow position s.size
    s.items[position]? = some v ∧
    (∀ {σ' : Type} (src' : Source σ' ι α) (x' : σ'),
      (get src' position read.2.1 x').1 = .ok v ∧ (get src' position read.2.1 x').2.2 = x') ∧
    (c.coversPosition position = false →
      read.2.2.2 = .range w.start w.length :: asked ∧
      read.2.1.Leads s (windowOrder position w) ∧
      ∀ q, w.start ≤ q → q < w.stop → ∃ e, s.entry? q = some e ∧
        read.2.1.table.entryAt? q = some e ∧
        ∀ {σ' : Type} (src' : Source σ' ι α) (x' : σ'),
          (get src' q read.2.1 x').1 = .ok e.value ∧ (get src' q read.2.1 x').2.2 = x' ∧
            (get src' q read.2.1 x').2.1.stats = read.2.1.stats.hit) := by
  intro read asked w
  have stocked := coherent.stocked reachable
  have served := get_served shows.traced.truthful stocked (s := (x, log)) hx position
  have wf' : read.2.1.table.WellFormed := served.stocked.table
  have item := Shelf.answers_nothing_item.1 (served.answer v answered)
  obtain ⟨size, told, bounds⟩ := exists_size_of_answered (q := .get position) trivial answered
  cases Shelf.answers_nothing_size.1
    ((getSize_served shows.traced.truthful stocked (s := (x, log)) hx).answer size told)
  have inside : position < s.size := guardPosition_eq_ok_iff.1 bounds
  have calls := (getSize_traced src c x log).2
  have window : c.coversPosition position = false → Windowed s c position w read.2.1 :=
    fun missing => windowed_get identified shows.traced stocked hx told inside missing answered
  obtain ⟨-, -, stop, fits, -⟩ : c.Fits s position w := fits_missWindow inside
  obtain ⟨known, e, found⟩ :=
    found_of_answered identified shows.traced stocked hx told inside answered
  refine ⟨item, fun src' x' => ?_, fun missing => ⟨?_, ?_, fun q from_start lt => ?_⟩⟩
  · obtain ⟨item', -⟩ := Shelf.entry?_eq_some_iff.1 (served.stocked.entry?_eq found)
    rw [get_of_cached wf' known inside found, Option.some.inj (item.symm.trans item')]
    exact ⟨rfl, rfl⟩
  · have state := (get_of_missing stocked.table told inside missing).1
    exact (congrArg Prod.snd state).trans (congrArg (_ :: ·) calls)
  · obtain ⟨back, split⟩ := (window missing).entries
    refine leads_of_entries identified (fun q mem => ?_) split
    rcases mem_windowOrder_iff.1 mem with rfl | ⟨-, lt⟩
    · exact inside
    · omega
  · obtain ⟨e, kept⟩ := identified.exists_entry? (Nat.lt_of_lt_of_le lt fits)
    have mem : q ∈ windowOrder position w :=
      mem_windowOrder_iff.2 (Or.inr ⟨from_start, by omega⟩)
    have cached := (window missing).cached wf' mem kept
    refine ⟨e, kept, cached, fun src' x' => ?_⟩
    rw [get_of_cached wf' known (Nat.lt_of_lt_of_le lt fits) cached]
    exact ⟨rfl, rfl, stats_perform_hit e.id⟩

/-- The cache is full, and its last entry is one of the window, cached by its identity: it is
evicted by the objects before it and comes back. -/
theorem get_window_survives_full :
    let s : Shelf Nat Nat := ⟨[10, 11, 12, 13, 14, 15, 16, 17, 18, 19], some⟩
    let ask (q : Query Nat) (c : Cache Nat Nat) : Cache Nat Nat := (query Shelf.source q c s).2.1
    let c := ask (.range 8 1)
      (ask (.range 6 1) (ask (.byId 14) (empty ⟨3, 3, by decide, by decide⟩)))
    c.table.entries.map (·.id) = [18, 16, 14] ∧
      (get Shelf.source.traced 3 c (s, [])).2.2.2 = [.range 2 3] ∧
      (get Shelf.source.traced 3 c (s, [])).2.1.Leads s [3, 4, 2] ∧
      (get Shelf.source 4 (get Shelf.source.traced 3 c (s, [])).2.1 s).1 = .ok 14 := by
  intro s ask c
  have reachable : Reachable ⟨3, 3, by decide, by decide⟩ c :=
    .query _ _ _ (.query _ _ _ (.query _ _ _ .empty))
  have identified : s.Identified := ⟨by decide, by decide⟩
  have answered : (get Shelf.source.traced 3 c (s, [])).1 = .ok 13 := by decide
  obtain ⟨-, -, fetched⟩ := get_window_survives (x := s) reachable identified (by decide)
    (Shelf.shows identified.distinct) rfl [] answered
  have window : c.missWindow 3 s.size = ⟨2, 5⟩ := by decide
  rw [window] at fetched
  obtain ⟨calls, leads, each⟩ := fetched (by decide)
  obtain ⟨e, kept, -, again⟩ := each 4 (by decide) (by decide)
  cases Option.some.inj (kept.symm.trans (by rfl : s.entry? 4 = some ⟨14, 14, some 4⟩))
  exact ⟨by decide, calls, leads, (again Shelf.source s).1⟩

end ReadThrough.Cache
