import ReadThrough.Proofs.Cache.Handling
import ReadThrough.Report

/-!
# Activity shows in the counters

Whatever is done with a cache, no counter goes down; and if none goes up, no lookup was made, and
the cache holds what it held, in the same order.  So whoever finds the same statistics twice
knows that nothing happened to the entries in between.

* `Table.Still` says that a table is as it was, and `Cache.Idle` that it is so throughout a run in
  which nothing is looked up.
* `Cache.still_or_counted`: a use leaves the table as it is, or is counted.
* `Reporter.watch` are the reports of a reporter that looks at a cache from time to time.
* `Cache.idle_of_snapshot_eq` is about any two moments of a run, and about a reporter that finds
  nothing new.
-/

namespace ReadThrough

variable {σ ι α : Type}

namespace Stats

inductive Counter where
  | hits
  | misses
  | fetches
  | fetchedObjects
  | evictions
  | invalidations

/-- What a counter has come to. -/
def value (s : Stats) : Counter → Nat
  | .hits => s.hits
  | .misses => s.misses
  | .fetches => s.fetches
  | .fetchedObjects => s.fetchedObjects
  | .evictions => s.evictions
  | .invalidations => s.invalidations

variable {s s' : Stats} (k : Counter)

theorem value_le_hit : s.value k ≤ s.hit.value k := by
  cases k <;> simp [value, hit]

theorem value_le_miss (lookups : Nat) : s.value k ≤ (s.miss lookups).value k := by
  cases k <;> simp [value, miss]

theorem value_le_fetch (objects : Nat) : s.value k ≤ (s.fetch objects).value k := by
  cases k <;> simp [value, fetch]

theorem value_le_evict : s.value k ≤ s.evict.value k := by
  cases k <;> simp [value, evict]

theorem value_le_invalidate (dropped : Nat) : s.value k ≤ (s.invalidate dropped).value k := by
  cases k <;> simp [value, invalidate]

/-- More lookups are more hits or more misses. -/
theorem exists_value_lt (more : s.lookups < s'.lookups) : ∃ k, s.value k < s'.value k := by
  by_contra none
  have hits := Nat.not_lt.1 fun lt => none ⟨.hits, lt⟩
  have misses := Nat.not_lt.1 fun lt => none ⟨.misses, lt⟩
  exact absurd more (Nat.not_lt.2 (Nat.add_le_add hits misses))

theorem value_eq_of_withEntries {n n' : Nat} (same : s'.withEntries n' = s.withEntries n) :
    s'.value k = s.value k := by
  have at_k : (s'.withEntries n').value k = (s.withEntries n).value k := congrArg (value · k) same
  cases k <;> exact at_k

end Stats

namespace Table

/-- The second table holds what the first one holds, in the same order; also in the same slots,
unless there is nothing in it. -/
structure Still (t t' : Table ι α) : Prop where
  entries : t'.entries = t.entries
  table : t' = t ∨ t.entries = []

theorem Still.refl (t : Table ι α) : t.Still t := ⟨rfl, Or.inl rfl⟩

theorem Still.trans {t t₁ t' : Table ι α} (first : t.Still t₁) (second : t₁.Still t') :
    t.Still t' where
  entries := second.entries.trans first.entries
  table := by
    rcases second.table with same | nothing
    · exact first.table.imp_left same.trans
    · exact Or.inr (first.entries.symm.trans nothing)

variable [DecidableEq ι]

/-- Where nothing was counted as removed, nothing was removed. -/
theorem removeAll_eq_self {t : Table ι α} {hs : List Handle} (none : (t.removeAll hs).1 = 0) :
    (t.removeAll hs).2 = t := by
  induction hs generalizing t with
  | nil => rfl
  | cons h hs ih =>
    unfold removeAll at none ⊢
    split at none
    · cases none
    · rename_i t' removed
      have dead : t.entry? h = Option.none :=
        (fst_remove t h).symm.trans (congrArg Prod.fst removed)
      rw [remove_of_dead dead] at removed
      cases removed
      exact ih none

end Table

namespace Cache

variable [DecidableEq ι] {c : Cache ι α} {uses : List (Use ι α)}

/-- All along the uses the table is as it was at first, and nothing is looked up. -/
structure Idle (c : Cache ι α) (uses : List (Use ι α)) : Prop where
  table : ∀ before after, uses = before ++ after → c.table.Still (c.run before).table
  lookups : (along demand c uses).sum = 0

/-! ## Counters do not go down -/

theorem value_le_perform (act : Act ι α) (k : Stats.Counter) :
    c.stats.value k ≤ (c.perform act).stats.value k := by
  cases act with
  | learn size => exact Nat.le_refl _
  | hit id =>
    have counted : (c.perform (.hit id)).stats = c.stats.hit :=
      congrArg Stats.hit (stats_touch id)
    rw [counted]
    exact Stats.value_le_hit k
  | miss lookups => exact Stats.value_le_miss k lookups
  | fetch objects => exact Stats.value_le_fetch k objects
  | store id value position? => exact Nat.le_refl _
  | promote id => exact Nat.le_of_eq (congrArg (Stats.value · k) (stats_touch id).symm)
  | evict =>
    rw [perform]
    split
    · exact Stats.value_le_evict k
    · exact Nat.le_refl _
  | hear change =>
    obtain ⟨dropped, counted⟩ := exists_invalidated c change
    rw [perform, counted]
    exact Stats.value_le_invalidate k dropped
  | clear => exact Stats.value_le_invalidate k _

theorem value_le_replay (acts : List (Act ι α)) (k : Stats.Counter) :
    c.stats.value k ≤ (c.replay acts).stats.value k := by
  induction acts generalizing c with
  | nil => exact Nat.le_refl _
  | cons act acts ih => exact Nat.le_trans (value_le_perform act k) ih

theorem value_le_use (wf : c.table.WellFormed) (u : Use ι α) (k : Stats.Counter) :
    c.stats.value k ≤ (c.use u).stats.value k := by
  rw [use_eq wf]
  exact value_le_replay _ k

theorem value_le_run (wf : c.table.WellFormed) (uses : List (Use ι α)) (k : Stats.Counter) :
    c.stats.value k ≤ (c.run uses).stats.value k := by
  rw [run_eq wf]
  exact value_le_replay _ k

/-! ## What is not counted leaves the table as it is -/

/-- A read that comes to no lookup does not get at the table. -/
theorem table_query_of_idle {src : Source σ ι α} {q : Query ι} {s : σ}
    (idle : q.demand (getSize src c s).1 = 0) : (query src q c s).2.1.table = c.table := by
  have same := table_getSize src c s
  cases q with
  | size => exact same
  | byId id => cases idle
  | get position =>
    change (get src position c s).2.1.table = _
    unfold get
    rcases told : getSize src c s with ⟨_ | size, c₁, s₁⟩
    · rwa [told] at same
    · rw [told] at same idle
      have beyond : ¬ position < size := fun inside => by
        simp only [Query.demand, if_pos inside] at idle
        cases idle
      simp only [guardPosition, if_neg beyond]
      exact same
  | range start length =>
    change (getRange src start length c s).2.1.table = _
    unfold getRange
    rcases told : getSize src c s with ⟨_ | size, c₁, s₁⟩
    · rwa [told] at same
    · rw [told] at same idle
      dsimp only
      cases guard : guardRange start length size with
      | error fault => exact same
      | ok u =>
        -- then the range is empty, and is served at once
        simp only [Query.demand, if_pos (guardRange_eq_ok_iff.1 guard)] at idle
        cases idle
        exact same

/-- Handling a change leaves the table as it is, or counts what it drops. -/
theorem still_or_counted_apply (wf : c.table.WellFormed) (change : Change ι) :
    c.table.Still (c.apply change).table ∨
      c.stats.value .invalidations < (c.apply change).stats.value .invalidations := by
  have cleared : c.table.Still c.clear.table ∨
      c.stats.value .invalidations < c.clear.stats.value .invalidations := by
    cases size : c.table.size with
    | zero =>
      have nothing : c.table.entries = [] := List.eq_nil_of_length_eq_zero (wf.size_eq ▸ size)
      exact Or.inl ⟨nothing.symm, Or.inr nothing⟩
    | succ n => exact Or.inr (Nat.lt_add_of_pos_right (size ▸ Nat.succ_pos n))
  cases change with
  | objectAdded id => exact Or.inl (.refl _)
  | objectChanged id =>
    rw [apply]
    split
    · exact Or.inr (Nat.lt_succ_self _)
    · exact Or.inl (.refl _)
  | rangeChanged first last =>
    cases dropped : (c.table.removePositions first last).1 with
    | zero =>
      have same : (c.apply (.rangeChanged first last)).table = c.table :=
        Table.removeAll_eq_self dropped
      rw [same]
      exact Or.inl (.refl _)
    | succ n => exact Or.inr (Nat.lt_add_of_pos_right (dropped ▸ Nat.succ_pos n))
  | _ => exact cleared

/-- A use that comes to no lookup leaves the table as it is, or counts what it drops; any other
use counts its lookups. -/
theorem still_or_counted (wf : c.table.WellFormed) (u : Use ι α) :
    c.table.Still (c.use u).table ∧ c.demand u = 0 ∨
      ∃ k, c.stats.value k < (c.use u).stats.value k := by
  have dropping : ∀ change, c.table.Still (c.apply change).table ∧ 0 = 0 ∨
      ∃ k, c.stats.value k < (c.apply change).stats.value k := fun change =>
    (still_or_counted_apply wf change).imp (⟨·, rfl⟩) (⟨_, ·⟩)
  cases u with
  | read src s q =>
    rcases Nat.eq_zero_or_pos (q.demand (getSize src c s).1) with idle | asked
    · have same : (c.use (.read src s q)).table = c.table := table_query_of_idle idle
      rw [same]
      exact Or.inl ⟨.refl _, idle⟩
    · have books : Books (c.useActs (.read src s q)) c.stats (c.use (.read src s q)).stats := by
        rw [use_eq wf]
        exact books_replay _
      refine Or.inr (Stats.exists_value_lt ?_)
      rw [books.lookups, lookups_useActs wf]
      exact Nat.lt_add_of_pos_right asked
  | hear change => exact dropping change
  | clear => exact dropping .contentsChanged
  | look => exact Or.inl ⟨.refl _, rfl⟩

/-- If all counters are in the end what they were at first, they were so throughout. -/
theorem idle_of_value_eq (wf : c.table.WellFormed)
    (same : ∀ k, (c.run uses).stats.value k = c.stats.value k) : c.Idle uses := by
  induction uses generalizing c with
  | nil =>
    refine ⟨fun before after split => ?_, rfl⟩
    rw [(List.append_eq_nil_iff.1 split.symm).1]
    exact .refl _
  | cons u uses ih =>
    have wf' := use_wellFormed wf u
    have between : ∀ k, (c.use u).stats.value k = c.stats.value k := fun k =>
      Nat.le_antisymm (Nat.le_trans (value_le_run wf' uses k) (Nat.le_of_eq (same k)))
        (value_le_use wf u k)
    obtain ⟨still, idle⟩ := (still_or_counted wf u).resolve_right
      fun ⟨k, lt⟩ => Nat.ne_of_gt lt (between k)
    have rest := ih wf' fun k => (same k).trans (between k).symm
    refine ⟨fun before after split => ?_, ?_⟩
    · cases before with
      | nil => exact .refl _
      | cons u' before =>
        obtain ⟨rfl, later⟩ := List.cons.inj split
        exact still.trans (rest.table before after later)
    · rw [along, List.sum_cons, idle, rest.lookups]

end Cache

/-! ## Reports -/

variable [DecidableEq ι] {c : Cache ι α}

/-- What a reporter says if it looks at a cache after each of these stretches of uses. -/
def Reporter.watch : Reporter → Cache ι α → List (List (Use ι α)) → List (List Report)
  | _, _, [] => []
  | r, c, uses :: stretches =>
    let (reports, r) := r.tick (c.run uses).snapshot
    reports :: r.watch (c.run uses) stretches

/-- A reporter keeps in mind what it saw last. -/
theorem Reporter.tick_snd (reported? : Option Stats) (stats : Stats) :
    (Reporter.tick ⟨reported?, true⟩ stats).2 = ⟨some stats, true⟩ := by
  unfold tick
  rw [if_pos rfl]
  split
  · rename_i same
    exact congrArg (Reporter.mk · true) same
  · rfl

theorem Reporter.unchanged_iff {reported? : Option Stats} {stats : Stats} :
    (Reporter.tick ⟨reported?, true⟩ stats).1 = [.unchanged] ↔ reported? = some stats := by
  unfold tick
  rw [if_pos rfl]
  split
  · rename_i same
    exact iff_of_true rfl same
  · rename_i other
    exact iff_of_false nofun other

/-- If the reporter finds nothing new after a stretch of uses, it has looked at the cache before,
and nothing happened to the entries since. -/
theorem Reporter.idle_of_unchanged (wf : c.table.WellFormed) {reported? : Option Stats}
    (seen : reported? = none ∨ reported? = some c.snapshot)
    {before after : List (List (Use ι α))} {uses : List (Use ι α)}
    (unchanged : (Reporter.watch ⟨reported?, true⟩ c (before ++ uses :: after))[before.length]? =
      some [.unchanged]) :
    (before = [] → reported? = some c.snapshot) ∧ (c.run before.flatten).Idle uses := by
  induction before generalizing c reported? with
  | nil =>
    have now := Reporter.unchanged_iff.1 (Option.some.inj unchanged)
    rcases seen with nothing | seen
    · rw [nothing] at now
      cases now
    · have same : (c.run uses).snapshot = c.snapshot := Option.some.inj (now.symm.trans seen)
      exact ⟨fun _ => seen, Cache.idle_of_value_eq wf fun k => Stats.value_eq_of_withEntries k same⟩
  | cons first before ih =>
    have ran : (c.run first).table.WellFormed := by
      rw [Cache.run_eq wf]
      exact Cache.replay_wellFormed wf
    rw [List.cons_append, Reporter.watch, List.length_cons, List.getElem?_cons_succ,
      Reporter.tick_snd] at unchanged
    rw [List.flatten_cons, Cache.run, List.foldl_append]
    exact ⟨fun nothing => (by cases nothing), (ih ran (Or.inr rfl) unchanged).2⟩

/-- Statistics that are equal mean that nothing happened to the entries.  At any moment of a run:

* No use lets a counter go down.
* A use leaves the table as it is, and comes to no lookup, or some counter goes up.
* If the snapshots at two moments are equal, the cache held the same all the time in between, and
  nothing was looked up.
* A reporter that looks at the cache from time to time finds nothing new only if nothing happened
  to the entries since it looked at them before. -/
theorem Cache.idle_of_snapshot_eq (sizing : Sizing) (past : List (Use ι α)) :
    let new : Cache ι α := empty sizing
    let c := new.run past
    (∀ u k, c.stats.value k ≤ (c.use u).stats.value k) ∧
    (∀ u, c.table.Still (c.use u).table ∧ c.demand u = 0 ∨
      ∃ k, c.stats.value k < (c.use u).stats.value k) ∧
    (∀ uses, (c.run uses).snapshot = c.snapshot → c.Idle uses) ∧
    ∀ interval before uses after,
      ((Reporter.start interval).2.watch new (before ++ uses :: after))[before.length]? =
        some [.unchanged] → before ≠ [] ∧ (new.run before.flatten).Idle uses := by
  intro new c
  have fresh : new.table.WellFormed := Table.wellFormed_empty
  have wf : c.table.WellFormed := by
    change (new.run past).table.WellFormed
    rw [run_eq fresh]
    exact replay_wellFormed fresh
  refine ⟨value_le_use wf, still_or_counted wf,
    fun uses same => idle_of_value_eq wf fun k => Stats.value_eq_of_withEntries k same,
    fun interval before uses after unchanged => ?_⟩
  obtain ⟨first, idle⟩ := Reporter.idle_of_unchanged fresh (Or.inl rfl) unchanged
  exact ⟨fun nothing => (by cases first nothing), idle⟩

/-- Objects were read; then the cache is looked at, a position is read that is none, and so is a
range of no positions, and objects change that are not cached. -/
theorem Cache.idle_of_snapshot_eq_quiet :
    let shelf : Shelf Nat Nat := ⟨[4, 5, 6], some⟩
    let new : Cache Nat Nat := empty ⟨2, 2, by decide, by decide⟩
    let busy : List (Use Nat Nat) := [.read Shelf.source shelf (.range 0 2)]
    let quiet : List (Use Nat Nat) := [.look, .read Shelf.source shelf (.get 3),
      .read Shelf.source shelf (.range 1 0), .hear (.objectChanged 6), .hear (.rangeChanged 1 0)]
    (new.run busy).Idle quiet ∧ (new.run busy).table.entries.map (·.id) = [5, 4] ∧
    ((Reporter.start 60).2.watch new [busy, quiet])[1]? = some [.unchanged] ∧
    (new.run [busy].flatten).Idle quiet := by
  intro shelf new busy quiet
  have same : ((new.run busy).run quiet).snapshot = (new.run busy).snapshot := by decide +kernel
  obtain ⟨-, -, idle, reported⟩ := idle_of_snapshot_eq ⟨2, 2, by decide, by decide⟩ busy
  have unchanged : ((Reporter.start 60).2.watch new [busy, quiet])[1]? = some [.unchanged] := by
    rw [Reporter.watch, List.getElem?_cons_succ, Reporter.start, Reporter.tick_snd,
      Reporter.watch, List.getElem?_cons_zero, same, Reporter.unchanged_iff.2 rfl]
  exact ⟨idle quiet same, by decide +kernel, unchanged, (reported 60 [busy] quiet [] unchanged).2⟩

end ReadThrough
