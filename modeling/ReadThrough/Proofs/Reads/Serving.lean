import ReadThrough.Proofs.Cache.Journal

/-!
# Serving the start of a range

The start of a range is served from the cache, up to the first position that is not cached.
Each hit brings an entry to the front, so what was served stands there afterwards in the
opposite order, and behind it the other entries in theirs.

* `Table.Reordered`: two tables differ in the order of use only.
* `Cache.runLength` is how many positions are cached in a row, `Cache.runEntries` are the
  entries of so many.
* `Cache.serveRun_served` says what is served and what becomes of the cache.
-/

namespace ReadThrough

variable {σ ι α : Type}

namespace Table

/-- Every handle has the same entry in both, and every key leads to the same handle. -/
structure Reordered (t t' : Table ι α) : Prop where
  entry : ∀ h, t'.entry? h = t.entry? h
  ids : t'.ids = t.ids
  positions : t'.positions = t.positions

variable {t t' t'' : Table ι α} {h : Handle} {e : Entry ι α}

namespace Reordered

theorem refl : t.Reordered t := ⟨fun _ => rfl, rfl, rfl⟩

theorem trans (first : t.Reordered t') (second : t'.Reordered t'') : t.Reordered t'' :=
  ⟨fun h => (second.entry h).trans (first.entry h), second.ids.trans first.ids,
    second.positions.trans first.positions⟩

theorem covers (same : t.Reordered t') (position : Nat) :
    t'.covers position = t.covers position := by
  rw [Table.covers, Table.covers, same.positions]

theorem entryAt? (same : t.Reordered t') (position : Nat) :
    t'.entryAt? position = t.entryAt? position := by
  rw [Table.entryAt?, Table.entryAt?, atPosition?, atPosition?, same.positions]
  exact congrArg _ (funext same.entry)

variable [DecidableEq ι]

/-- The entries are the same, in whatever order. -/
theorem perm (same : t.Reordered t') (wf : t.WellFormed) (wf' : t'.WellFormed) :
    t'.entries.Perm t.entries := by
  refine (List.perm_ext_iff_of_nodup wf'.nodup_ids.of_map wf.nodup_ids.of_map).2 fun e => ?_
  rw [wf'.mem_entries_iff, wf.mem_entries_iff]
  exact exists_congr fun h => by rw [same.entry]

end Reordered

variable [DecidableEq ι]

namespace WellFormed

theorem reordered_promote (wf : t.WellFormed) (here : t.entry? h = some e) :
    t.Reordered (t.promote h) := by
  refine ⟨fun k => Option.ext fun x => ?_, rfl, rfl⟩
  have mem := (Holds.entry?_eq_some_iff wf).1 here
  rw [(Holds.promote wf mem).entry?_eq_some_iff, Holds.entry?_eq_some_iff wf, List.mem_cons,
    List.mem_filter, decide_eq_true_eq]
  constructor
  · rintro (same | ⟨mem', -⟩)
    · cases same
      exact mem
    · exact mem'
  · intro mem'
    by_cases eq : k = h
    · subst eq
      exact Or.inl (congrArg _ ((Holds.order wf).value_unique mem' mem))
    · exact Or.inr ⟨mem', eq⟩

theorem entryAt?_eq_some_iff (wf : t.WellFormed) {position : Nat} :
    t.entryAt? position = some e ↔ e ∈ t.entries ∧ e.position? = some position := by
  constructor
  · intro found
    obtain ⟨h, at_h, here⟩ := Option.bind_eq_some_iff.1 found
    obtain ⟨e', here', at_e⟩ := wf.exists_of_atPosition? at_h
    cases here.symm.trans here'
    exact ⟨wf.mem_of_entry? here, at_e⟩
  · rintro ⟨mem, at_e⟩
    obtain ⟨h, at_h, here⟩ := wf.exists_atPosition? mem at_e
    rw [entryAt?, at_h]
    exact here

theorem covers_eq_true_iff (wf : t.WellFormed) {position : Nat} :
    t.covers position = true ↔ ∃ e, t.entryAt? position = some e := by
  rw [Table.covers, Index.contains, Option.isSome_iff_exists]
  constructor
  · rintro ⟨h, at_h⟩
    obtain ⟨e, here, -⟩ := wf.exists_of_atPosition? at_h
    exact ⟨e, Option.bind_eq_some_iff.2 ⟨h, at_h, here⟩⟩
  · rintro ⟨e, found⟩
    obtain ⟨h, at_h, -⟩ := Option.bind_eq_some_iff.1 found
    exact ⟨h, at_h⟩

end WellFormed

end Table

namespace Cache

/-- How many positions from `start` on are cached without a gap, of `length` at most. -/
def runLength (c : Cache ι α) (start length : Nat) : Nat :=
  ((List.range' start length).takeWhile c.coversPosition).length

/-- The entries of so many positions from `start` on. -/
def runEntries (c : Cache ι α) (start length : Nat) : List (Entry ι α) :=
  (List.range' start length).filterMap c.table.entryAt?

variable {c c' : Cache ι α} {e : Entry ι α} {start length : Nat}

theorem runLength_le : c.runLength start length ≤ length := by
  have le := (List.takeWhile_sublist (l := List.range' start length) c.coversPosition).length_le
  rwa [List.length_range'] at le

theorem runLength_succ (start length : Nat) : c.runLength start (length + 1) =
    if c.coversPosition start then c.runLength (start + 1) length + 1 else 0 := by
  rw [runLength, List.range'_succ, List.takeWhile_cons]
  split <;> rfl

/-- All positions of the run are cached. -/
theorem coversPosition_of_lt_runLength {p : Nat} (from_start : start ≤ p)
    (lt : p < start + c.runLength start length) : c.coversPosition p = true := by
  induction length generalizing start with
  | zero => exact absurd (Nat.lt_of_lt_of_eq lt (Nat.add_zero start)) (Nat.not_lt.2 from_start)
  | succ length ih =>
    rw [runLength_succ] at lt
    split at lt
    · rename_i covered
      rcases Nat.eq_or_lt_of_le from_start with rfl | after
      · exact covered
      · exact @ih (start + 1) after (by omega)
    · exact absurd (Nat.lt_of_lt_of_eq lt (Nat.add_zero start)) (Nat.not_lt.2 from_start)

theorem runLength_congr (same : c.table.Reordered c'.table) :
    c'.runLength start length = c.runLength start length := by
  have covers : c'.coversPosition = c.coversPosition := funext same.covers
  rw [runLength, runLength, covers]

theorem runEntries_congr (same : c.table.Reordered c'.table) :
    c'.runEntries start length = c.runEntries start length := by
  rw [runEntries, runEntries, funext same.entryAt?]

theorem runEntries_succ (found : c.table.entryAt? start = some e) :
    c.runEntries start (length + 1) = e :: c.runEntries (start + 1) length := by
  rw [runEntries, List.range'_succ, List.filterMap_cons_some found, runEntries]

variable [DecidableEq ι]

/-- These entries in front, and the others behind them in their order. -/
def fronted (front entries : List (Entry ι α)) : List (Entry ι α) :=
  front ++ entries.filter fun e => e.id ∉ front.map (·.id)

@[simp] theorem fronted_nil (entries : List (Entry ι α)) : fronted [] entries = entries :=
  List.filter_eq_self.2 fun _ _ => rfl

theorem mem_runEntries (wf : c.table.WellFormed) (mem : e ∈ c.runEntries start length) :
    e ∈ c.table.entries ∧ ∃ p, start ≤ p ∧ p < start + length ∧ e.position? = some p := by
  obtain ⟨p, mem_p, found⟩ := List.mem_filterMap.1 mem
  obtain ⟨mem_e, at_e⟩ := wf.entryAt?_eq_some_iff.1 found
  obtain ⟨from_start, lt⟩ := List.mem_range'_1.1 mem_p
  exact ⟨mem_e, p, from_start, lt, at_e⟩

/-- The entry of the first position comes to the front, and then those of the others. -/
theorem fronted_runEntries (wf : c.table.WellFormed) (found : c.table.entryAt? start = some e)
    (length : Nat) :
    fronted (c.runEntries (start + 1) length).reverse
        (e :: c.table.entries.filter fun x => x.id ≠ e.id) =
      fronted (c.runEntries start (length + 1)).reverse c.table.entries := by
  obtain ⟨mem, at_e⟩ := wf.entryAt?_eq_some_iff.1 found
  have other : e.id ∉ (c.runEntries (start + 1) length).reverse.map (·.id) := by
    intro mem_id
    obtain ⟨x, mem_x, same⟩ := List.mem_map.1 mem_id
    obtain ⟨mem', p, after, -, at_x⟩ := mem_runEntries wf (List.mem_reverse.1 mem_x)
    cases wf.eq_of_id mem' mem same
    cases at_e.symm.trans at_x
    exact Nat.lt_irrefl _ after
  have stays := List.filter_cons_of_pos
    (p := fun x => x.id ∉ (c.runEntries (start + 1) length).reverse.map (·.id))
    (l := c.table.entries.filter fun x => x.id ≠ e.id) (decide_eq_true other)
  rw [fronted, fronted, runEntries_succ found, List.reverse_cons, List.append_assoc, stays,
    List.filter_filter]
  refine congrArg (_ ++ e :: ·) (List.filter_congr fun x _ => ?_)
  rw [← Bool.decide_and, List.map_append]
  exact decide_eq_decide.2 (by rw [List.mem_append, List.map_singleton, List.mem_singleton, not_or])

/-- What is left of a cache after a run was served from it. -/
structure AfterRun (c : Cache ι α) (run : List (Entry ι α)) (c' : Cache ι α) : Prop where
  table : c'.table.WellFormed
  entries : c'.table.entries = fronted run.reverse c.table.entries
  same : c.table.Reordered c'.table
  size : c'.size? = c.size?
  sizing : c'.sizing = c.sizing
  stats : c'.stats = { c.stats with hits := c.stats.hits + run.length }

/-- The cached run at the start is served, and its entries are the most recently used ones. -/
theorem serveRun_served (wf : c.table.WellFormed) (length start : Nat) :
    let run := c.runEntries start (c.runLength start length)
    (serveRun length start c).1 = .ok (run.map (·.value)) ∧
      run.length = c.runLength start length ∧ AfterRun c run (serveRun length start c).2 := by
  induction length generalizing start c with
  | zero => exact ⟨rfl, rfl, wf, (fronted_nil _).symm, .refl, rfl, rfl, rfl⟩
  | succ length ih =>
    rw [runLength_succ]
    unfold serveRun
    cases found : c.table.entryAt? start with
    | none =>
      have missing : c.coversPosition start = false :=
        eq_false_of_ne_true fun covered => by
          obtain ⟨e, found'⟩ := wf.covers_eq_true_iff.1 covered
          cases found.symm.trans found'
      rw [(entryAt?_eq_none_iff wf).1 found, missing, if_neg Bool.false_ne_true]
      exact ⟨rfl, rfl, wf, (fronted_nil _).symm, .refl, rfl, rfl, rfl⟩
    | some e =>
      obtain ⟨h, at_h, here⟩ := exists_of_entryAt? found
      have covered : c.coversPosition start = true := wf.covers_eq_true_iff.2 ⟨e, found⟩
      rw [covered, if_pos rfl, runEntries_succ found, at_h]
      dsimp only
      rw [hit_eq wf here]
      have moved := wf.reordered_promote here
      have rest := ih (c := { c with table := c.table.promote h }.count .hit) (wf.promote here)
        (start + 1)
      rw [runLength_congr (c := c) moved, runEntries_congr (c := c) moved] at rest
      obtain ⟨served, count, after⟩ := rest
      have entries := after.entries
      change _ = fronted _ (c.table.promote h).entries at entries
      rw [wf.entries_promote here, fronted_runEntries wf found] at entries
      rw [runEntries_succ found] at entries
      dsimp only
      rcases ran : serveRun length (start + 1) ({ c with table := c.table.promote h }.count .hit)
        with ⟨_ | values, c'⟩
      · rw [ran] at served
        cases served
      · rw [ran] at served after entries ⊢
        cases served
        refine ⟨rfl, congrArg (· + 1) count, after.table, entries, moved.trans after.same,
          after.size, after.sizing, ?_⟩
        rw [after.stats]
        exact congrArg (fun hits => { c.stats with hits := hits }) (Nat.add_right_comm _ 1 _)

/-- Where the range exists, its cached start is served, and the rest fetched if there is one. -/
theorem getRange_of_inside {src : Source σ ι α} {s : σ} {size : Nat} (wf : c.table.WellFormed)
    (told : (getSize src c s).1 = .ok size) (within : guardRange start length size = .ok ()) :
    let count := c.runLength start length
    let run := c.runEntries start count
    run.length = count ∧ ∃ c', AfterRun (getSize src c s).2.1 run c' ∧
      getRange src start length c s =
        if count = length then (.ok (run.map (·.value)), c', (getSize src c s).2.2)
        else match getRest src (start + count) (length - count) c' (getSize src c s).2.2 with
          | (.error e, c, s) => (.error e, c, s)
          | (.ok rest, c, s) => (.ok (run.map (·.value) ++ rest), c, s) := by
  have same : c.table.Reordered (getSize src c s).2.1.table := by
    rw [table_getSize]
    exact .refl
  have wf' : (getSize src c s).2.1.table.WellFormed := by rwa [table_getSize]
  obtain ⟨served, count, after⟩ := serveRun_served wf' length start
  rw [runLength_congr same, runEntries_congr same] at served count after
  refine ⟨count, _, after, ?_⟩
  unfold getRange
  rcases sized : getSize src c s with ⟨_ | size', c₁, s₁⟩
  · rw [sized] at told
    cases told
  · rw [sized] at told served
    cases told
    dsimp only at served ⊢
    rw [within]
    dsimp only
    rcases ran : serveRun length start c₁ with ⟨_ | values, c₂⟩
    · rw [ran] at served
      cases served
    · rw [ran] at served
      cases served
      dsimp only
      -- the rest is asked for from where the served values end
      generalize taken : (List.map Entry.value _).length = n
      rw [List.length_map, count] at taken
      subst taken
      rfl

end Cache

end ReadThrough
