import ReadThrough.Proofs.Cache.Reachable
import ReadThrough.Proofs.Cache.Tally

/-!
# Changes, counted and put together

A change that a cache handles adds to one counter, and adds to it what it takes out.  An entry
outlives several changes if none of them drops it, so neither their order matters nor whether
one of them is heard of again.

* `Cache.Handled` says what a change does to a cache, and `Reachable.handled` that it does so
  however the cache was used before.
* `Cache.stats_apply`: what a change takes out is counted as invalidated, and nothing else is.
* `Cache.Alike`: two caches differ in the slots of their entries at most.
* `Cache.alike_foldl_apply`: the same changes, in whatever order and however often, lead to
  caches that are alike.
-/

namespace ReadThrough

variable {ι α : Type} [DecidableEq ι]

namespace Change

variable {change : Change ι}

/-- What goes is everything where objects may have shifted, and otherwise the object that changed
or those that are known to stand where something changed. -/
theorem drops_iff {e : Entry ι α} : change.drops e = true ↔
    change.shiftsPositions = true ∨ change = .objectChanged e.id ∨
      ∃ first last p, change = .rangeChanged first last ∧ e.position? = some p ∧
        first ≤ p ∧ p ≤ last := by
  cases change with
  | objectChanged id => simp [drops, shiftsPositions, eq_comm]
  | rangeChanged first last =>
    simp only [drops, Entry.standsWithin_eq_true_iff]
    simp [shiftsPositions]
  | _ => simp [drops, shiftsPositions]

omit [DecidableEq ι] in
theorem forgetsSize_iff :
    change.forgetsSize = true ↔ change.shiftsPositions = true ∨ ∃ id, change = .objectAdded id := by
  cases change <;> simp [forgetsSize, shiftsPositions]

end Change

namespace Cache

/-- The second cache is what a change makes of the first one. -/
structure Handled (change : Change ι) (c c' : Cache ι α) : Prop where
  /-- Only what the change drops is missing, and the rest is in the same order. -/
  entries : c'.table.entries = c.table.entries.filter fun e => !change.drops e
  drops : ∀ e : Entry ι α, change.drops e = true ↔
    change.shiftsPositions = true ∨ change = .objectChanged e.id ∨
      ∃ first last p, change = .rangeChanged first last ∧ e.position? = some p ∧
        first ≤ p ∧ p ≤ last
  /-- List and indexes agree as before. -/
  sound : c'.Sound
  forgets : (change.shiftsPositions = true ∨ ∃ id, change = .objectAdded id) → c'.size? = none
  remembers : ¬(change.shiftsPositions = true ∨ ∃ id, change = .objectAdded id) →
    c'.size? = c.size?
  stats : c'.stats = c.stats.invalidate (c.table.entries.countP change.drops)
  sizing : c'.sizing = c.sizing

/-- The caches hold the same in the same order, and have counted the same.  In which slots their
entries are may differ. -/
structure Alike (c c' : Cache ι α) : Prop where
  entries : c'.table.entries = c.table.entries
  size : c'.size? = c.size?
  stats : c'.stats = c.stats
  sizing : c'.sizing = c.sizing

variable {c c' : Cache ι α} {change : Change ι} {changes changes' : List (Change ι)} {k : Nat}

/-! ## One change -/

theorem exists_invalidated (c : Cache ι α) (change : Change ι) :
    ∃ k, (c.apply change).stats = c.stats.invalidate k := by
  unfold apply
  split
  · exact ⟨0, rfl⟩
  · split
    · exact ⟨1, rfl⟩
    · exact ⟨0, rfl⟩
  all_goals exact ⟨_, rfl⟩

omit [DecidableEq ι] in
/-- Entries that were counted when they left are those that are missing. -/
theorem length_of_invalidated (counted : c'.stats = c.stats.invalidate k)
    (held : c'.held = c.held) : k + c'.length = c.length := by
  rw [Cache.held, Cache.held, counted] at held
  change c.stats.evictions + (c.stats.invalidations + k) + c'.length = _ at held
  omega

/-- A change counts exactly the entries that it takes out. -/
theorem stats_apply (wf : c.table.WellFormed) :
    (c.apply change).stats = c.stats.invalidate (c.table.entries.countP change.drops) := by
  obtain ⟨k, counted⟩ := exists_invalidated c change
  have missing := length_of_invalidated counted (held_apply wf change)
  have split := c.table.entries.length_eq_length_filter_add change.drops
  rw [length, length, wf.size_eq, (apply_wellFormed wf).size_eq, entries_apply wf] at missing
  rw [counted, List.countP_eq_length_filter]
  exact congrArg _ (Nat.add_right_cancel (missing.trans split))

theorem Reachable.handled {sizing : Sizing} (reachable : c.Reachable sizing)
    (change : Change ι) : c.Handled change (c.apply change) where
  entries := entries_apply reachable.stocked.1.table
  drops _ := Change.drops_iff
  sound := (reachable.apply change).stocked.1.sound
  forgets forgotten := by rw [size?_apply, if_pos (Change.forgetsSize_iff.2 forgotten)]
  remembers known := by rw [size?_apply, if_neg (mt Change.forgetsSize_iff.1 known)]
  stats := stats_apply reachable.stocked.1.table
  sizing := apply_sizing

/-! ## Several changes -/

theorem foldl_apply_wellFormed (wf : c.table.WellFormed) :
    (changes.foldl Cache.apply c).table.WellFormed := by
  induction changes generalizing c with
  | nil => exact wf
  | cons change changes ih => exact ih (apply_wellFormed wf)

theorem foldl_apply_sizing : (changes.foldl Cache.apply c).sizing = c.sizing := by
  induction changes generalizing c with
  | nil => rfl
  | cons change changes ih => exact ih.trans apply_sizing

/-- An entry stays if no change drops it. -/
theorem entries_foldl_apply (wf : c.table.WellFormed) :
    (changes.foldl Cache.apply c).table.entries =
      c.table.entries.filter fun e => !changes.any fun change => change.drops e := by
  induction changes generalizing c with
  | nil => exact (List.filter_eq_self.2 fun _ _ => rfl).symm
  | cons change changes ih =>
    rw [List.foldl_cons, ih (apply_wellFormed wf), entries_apply wf, List.filter_filter]
    refine List.filter_congr fun e _ => ?_
    rw [List.any_cons, Bool.not_or, Bool.and_comm]

/-- The size stays known if no change lets it be forgotten. -/
theorem size?_foldl_apply_eq : (changes.foldl Cache.apply c).size? =
    if changes.any Change.forgetsSize then none else c.size? := by
  induction changes generalizing c with
  | nil => rfl
  | cons change changes ih =>
    rw [List.foldl_cons, ih, size?_apply, List.any_cons]
    cases change.forgetsSize with
    | true => exact ite_self _
    | false => rfl

theorem exists_invalidated_foldl (c : Cache ι α) (changes : List (Change ι)) :
    ∃ k, (changes.foldl Cache.apply c).stats = c.stats.invalidate k := by
  induction changes generalizing c with
  | nil => exact ⟨0, rfl⟩
  | cons change changes ih =>
    obtain ⟨first, counted⟩ := exists_invalidated c change
    obtain ⟨rest, counted'⟩ := ih (c.apply change)
    refine ⟨first + rest, counted'.trans ?_⟩
    rw [counted, Stats.invalidate, Stats.invalidate, Stats.invalidate, Nat.add_assoc]

theorem held_foldl_apply (wf : c.table.WellFormed) :
    (changes.foldl Cache.apply c).held = c.held := by
  induction changes generalizing c with
  | nil => rfl
  | cons change changes ih => exact (ih (apply_wellFormed wf)).trans (held_apply wf change)

/-- Which changes a cache has handled matters, but neither in what order nor how often. -/
theorem alike_foldl_apply (wf : c.table.WellFormed)
    (same : ∀ change, change ∈ changes ↔ change ∈ changes') :
    (changes.foldl Cache.apply c).Alike (changes'.foldl Cache.apply c) := by
  have any : ∀ p : Change ι → Bool, changes'.any p = changes.any p := by
    intro p
    rw [Bool.eq_iff_iff, List.any_eq_true, List.any_eq_true]
    exact exists_congr fun change => and_congr_left fun _ => (same change).symm
  have entries : (changes'.foldl Cache.apply c).table.entries =
      (changes.foldl Cache.apply c).table.entries := by
    rw [entries_foldl_apply wf, entries_foldl_apply wf]
    exact List.filter_congr fun e _ => congrArg _ (any _)
  refine ⟨entries, ?_, ?_, foldl_apply_sizing.trans foldl_apply_sizing.symm⟩
  · rw [size?_foldl_apply_eq, size?_foldl_apply_eq, any]
  · -- both have counted what they miss, and they miss the same
    obtain ⟨k, counted⟩ := exists_invalidated_foldl c changes
    obtain ⟨k', counted'⟩ := exists_invalidated_foldl c changes'
    have missing := length_of_invalidated counted (held_foldl_apply wf)
    have missing' := length_of_invalidated counted' (held_foldl_apply wf)
    rw [length, (foldl_apply_wellFormed wf).size_eq] at missing missing'
    rw [entries, ← missing] at missing'
    rw [counted, counted', Nat.add_right_cancel missing']

end Cache

end ReadThrough
