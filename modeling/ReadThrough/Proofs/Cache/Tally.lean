import ReadThrough.Proofs.Cache.Lookups

/-!
# The counters as a ledger

An entry is created once and taken out at most once.  Two counters say how many were taken
out, so together with the entries that are there they come to all that were created.

* `Cache.held` are the entries that are there or were counted, and `Cache.held_replay` says
  that these are the ones created.
* `Cache.bounds_of_phrases`: no answer comes without a miss, and no entry without an answer.
* `Cache.counters_balance` puts the counters of a run together.
-/

namespace ReadThrough

variable {ι α : Type}

namespace Cache

variable [DecidableEq ι] {c : Cache ι α} {acts acts' : List (Act ι α)}

/-! ## Entries -/

/-- The act creates an entry. -/
def creates (c : Cache ι α) : Act ι α → Bool
  | .store id _ _ => !c.coversId id
  | _ => false

/-- How many entries the acts create. -/
def created : Cache ι α → List (Act ι α) → Nat
  | _, [] => 0
  | c, act :: acts => (if c.creates act then 1 else 0) + created (c.perform act) acts

/-- The entries that are there, and those counted when they were taken out. -/
def held (c : Cache ι α) : Nat := c.stats.evictions + c.stats.invalidations + c.length

theorem created_append :
    c.created (acts ++ acts') = c.created acts + (c.replay acts).created acts' := by
  induction acts generalizing c with
  | nil => exact (Nat.zero_add _).symm
  | cons act acts ih => rw [List.cons_append, created, ih, created, replay_cons, Nat.add_assoc]

theorem held_evict (wf : c.table.WellFormed) : (c.perform .evict).held = c.held := by
  rcases List.eq_nil_or_concat c.table.entries with empty | ⟨es, e, last⟩
  · rw [perform_evict_nil wf empty]
  · rw [List.concat_eq_append] at last
    obtain ⟨wf', rest, counted⟩ := perform_evict wf last
    have before := wf.size_eq
    rw [last, List.length_append, List.length_singleton] at before
    have after := wf'.size_eq
    rw [rest] at after
    have one : c.stats.evict.evictions = c.stats.evictions + 1 := rfl
    have same : c.stats.evict.invalidations = c.stats.invalidations := rfl
    rw [held, held, counted, length, length, before, after, one, same]
    omega

theorem held_apply (wf : c.table.WellFormed) (change : Change ι) :
    (c.apply change).held = c.held := by
  have cleared : c.clear.held = c.held := by
    change c.stats.evictions + (c.stats.invalidations + c.table.size) + 0 = _
    rw [Nat.add_zero, ← Nat.add_assoc]
    rfl
  cases change with
  | objectChanged id =>
    unfold apply
    dsimp only
    cases found : c.table.ofId? id with
    | none =>
      rw [Table.removeId, found]
    | some h =>
      obtain ⟨e, here, -⟩ := wf.exists_of_ofId? found
      have one := wf.size_remove here
      rw [Table.removeId, found]
      dsimp only
      split
      · rename_i table eq
        rw [eq] at one
        dsimp only at one
        change c.stats.evictions + (c.stats.invalidations + 1) + table.size = _
        rw [held, length, ← one]
        omega
      · rfl
  | rangeChanged first last =>
    have counted : (c.table.removePositions first last).1 +
        (c.table.removePositions first last).2.size = c.table.size := wf.size_removeAll _
    change c.stats.evictions + (c.stats.invalidations + (c.table.removePositions first last).1) +
      (c.table.removePositions first last).2.size = _
    rw [held, length, ← counted]
    omega
  | objectAdded id => rfl
  | _ => exact cleared

/-- What is created is held. -/
theorem held_perform (wf : c.table.WellFormed) (act : Act ι α) :
    (c.perform act).held = c.held + if c.creates act then 1 else 0 := by
  have touched : ∀ id, (c.touch id).held = c.held := by
    intro id
    unfold touch
    split <;> rfl
  cases act with
  | hit id => exact touched id
  | promote id => exact touched id
  | store id value position? =>
    have size : (c.perform (.store id value position?)).length = _ :=
      Table.WellFormed.size_insert c.table id value position?
    change c.stats.evictions + c.stats.invalidations +
      (c.perform (.store id value position?)).length = _
    rw [size, held, creates, coversId, Nat.add_assoc, Nat.add_assoc, Nat.add_assoc]
    cases (c.table.ofId? id).isSome <;> rfl
  | evict => exact held_evict wf
  | hear change => exact held_apply wf change
  | clear => exact held_apply wf .contentsChanged
  | _ => rfl

/-- An entry that was created is cached, or was counted when it was taken out. -/
theorem held_replay (wf : c.table.WellFormed) (acts : List (Act ι α)) :
    (c.replay acts).held = c.held + c.created acts := by
  induction acts generalizing c with
  | nil => rfl
  | cons act acts ih =>
    rw [replay_cons, ih (perform_wellFormed wf act), held_perform wf, created, Nat.add_assoc]

theorem created_evicts (k : Nat) : c.created (List.replicate k .evict) = 0 := by
  induction k generalizing c with
  | zero => rfl
  | succ k ih => exact (Nat.zero_add _).trans ih

theorem created_of_stores {objects : Nat} (stores : Stores c objects acts) :
    c.created acts ≤ objects := by
  induction stores with
  | done => exact Nat.zero_le _
  | skip _ ih => exact Nat.le_succ_of_le ih
  | @place c objects acts id value position? _ ih =>
    have one : c.created (c.placeActs id value position?) ≤ 1 := by
      rw [placeActs, created, created_evicts]
      split <;> decide
    rw [created_append]
    omega

/-- There is no answer without a miss, and no entry that did not come with an answer. -/
theorem bounds_of_phrases (phrases : Phrases c acts) :
    (answers acts).length ≤ (acts.map Act.missed).sum ∧ c.created acts ≤ (answers acts).sum := by
  induction phrases with
  | done => exact ⟨Nat.le_refl _, Nat.le_refl _⟩
  | @plain c act acts plain _ ih =>
    have silent : answers (act :: acts) = answers acts ∧ c.creates act = false := by
      cases act with
      | fetch objects => cases plain
      | store id value position? => cases plain
      | _ => exact ⟨rfl, rfl⟩
    rw [silent.1, List.map_cons, List.sum_cons, created, silent.2]
    exact ⟨Nat.le_trans ih.1 (Nat.le_add_left _ _), by
      rw [if_neg Bool.false_ne_true, Nat.zero_add]
      exact ih.2⟩
  | @fetch c lookups objects stores acts some stored _ ih =>
    have answered : answers ([.miss lookups, .fetch objects] ++ stores ++ acts) =
        objects :: answers acts := by
      rw [answers_append, answers_append, (tacit_of_stores stored).answers]
      rfl
    have missed : (([Act.miss lookups, .fetch objects] ++ stores ++ acts).map Act.missed).sum =
        lookups + (stores.map Act.missed).sum + (acts.map Act.missed).sum := by
      rw [List.map_append, List.map_append, List.sum_append, List.sum_append]
      rfl
    have stored := created_of_stores stored
    have none : c.created [.miss lookups, .fetch objects] = 0 := rfl
    rw [answered, missed, created_append, created_append, none, List.length_cons, List.sum_cons]
    omega

/-! ## The ledger -/

/-- **The counters are a ledger of the run.**  Whatever is done with a new cache, each lookup
that was in bounds is counted as a hit or a miss, and each answer of the source with what it
brought.  There are no more answers than misses; every entry that was created is cached or was
counted as evicted or invalidated, and there are no more of them than objects were brought. -/
theorem counters_balance (sizing : Sizing) (uses : List (Use ι α)) :
    let new : Cache ι α := empty sizing
    let c := new.run uses
    let brought := (along answersTo new uses).flatten
    c = new.replay (new.journal uses) ∧
    c.stats.hits + c.stats.misses = (along demand new uses).sum ∧
    c.stats.fetches = brought.length ∧ c.stats.fetchedObjects = brought.sum ∧
    c.stats.fetches ≤ c.stats.misses ∧
    c.stats.evictions + c.stats.invalidations + c.length = new.created (new.journal uses) ∧
    c.snapshot.evictions + c.snapshot.invalidations + c.snapshot.entries ≤
      c.snapshot.fetchedObjects := by
  intro new c brought
  have wf : new.table.WellFormed := Table.wellFormed_empty
  have ran : c = new.replay (new.journal uses) := run_eq wf uses
  have books : Books (new.journal uses) new.stats c.stats := ran ▸ books_replay _
  have held : c.held = 0 + new.created (new.journal uses) := ran ▸ held_replay wf _
  obtain ⟨answered, created⟩ := bounds_of_phrases (phrases_journal wf uses)
  have lookups : c.stats.lookups = 0 + _ := books.lookups
  have misses : c.stats.misses = 0 + _ := books.misses
  have fetches : c.stats.fetches = 0 + _ := books.fetches
  have fetchedObjects : c.stats.fetchedObjects = 0 + _ := books.fetchedObjects
  rw [Nat.zero_add] at held lookups misses fetches fetchedObjects
  rw [lookups_journal wf] at lookups
  rw [answers_journal wf] at fetches fetchedObjects answered created
  refine ⟨ran, lookups, fetches, fetchedObjects, ?_, held, ?_⟩
  · rw [fetches, misses]
    exact answered
  · change c.held ≤ c.stats.fetchedObjects
    rw [held, fetchedObjects]
    exact created

end Cache

end ReadThrough
