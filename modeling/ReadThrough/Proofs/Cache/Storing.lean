import ReadThrough.Cache.Basic
import ReadThrough.Proofs.Source.Answers
import ReadThrough.Proofs.Table.Entries

/-!
# What storing does to a cache

Storing an object puts its entry in front and cuts the list of entries at the
capacity.  Storing a run of objects does this for one after the other.

* `Cache.Stocked right` is the invariant of all operations: the table is well
  formed and fits, and whatever is kept counts as a right answer.
* `Cache.entries_place` is the effect of storing on the list of entries, and
  `Cache.entries_keepAll` that of a run of different objects.
* `Stocked.place`, `Stocked.keepAll`, `Stocked.hit` keep the invariant.
-/

namespace ReadThrough

variable {ι α : Type} [DecidableEq ι]

namespace Cache

/-- The table is well formed and no fuller than allowed; every entry, and the size
where it is known, count as right. -/
structure Stocked (right : Answers ι α) (c : Cache ι α) : Prop where
  table : c.table.WellFormed
  fits : c.table.entries.length ≤ c.sizing.capacity
  entries : ∀ e ∈ c.table.entries, right.entry e
  size : ∀ n, c.size? = some n → right.size n

/-! ## Evicting -/

@[simp] theorem shed_sizing (rounds : Nat) (c : Cache ι α) : (shed rounds c).sizing = c.sizing := by
  induction rounds generalizing c with
  | zero => rfl
  | succ rounds ih =>
    unfold shed
    split
    · split
      · exact ih _
      · rfl
    · rfl

@[simp] theorem shed_size? (rounds : Nat) (c : Cache ι α) : (shed rounds c).size? = c.size? := by
  induction rounds generalizing c with
  | zero => rfl
  | succ rounds ih =>
    unfold shed
    split
    · split
      · exact ih _
      · rfl
    · rfl

/-- Enough rounds of eviction cut the list of entries at the capacity. -/
theorem shed_table {c : Cache ι α} (wf : c.table.WellFormed) {rounds : Nat}
    (enough : c.table.entries.length ≤ rounds) :
    (shed rounds c).table.WellFormed ∧
      (shed rounds c).table.entries = c.table.entries.take c.sizing.capacity := by
  induction rounds generalizing c with
  | zero =>
    have empty : c.table.entries = [] := List.length_eq_zero_iff.1 (Nat.le_zero.1 enough)
    exact ⟨wf, by rw [shed, empty, List.take_nil]⟩
  | succ rounds ih =>
    unfold shed
    rw [wf.size_eq]
    split
    · rename_i crowded
      rcases List.eq_nil_or_concat c.table.entries with empty | ⟨xs, e, split⟩
      · rw [empty] at crowded
        exact absurd crowded (Nat.not_lt_zero _)
      · rw [List.concat_eq_append] at split
        obtain ⟨evicted, wf', rest⟩ := wf.evict split
        have length : c.table.entries.length = xs.length + 1 := by
          rw [split, List.length_append, List.length_singleton]
        have step := ih (c := { c with table := c.table.evict.2 }.count .evict) wf'
          (by simp only [Cache.count, rest]; omega)
        have cut : c.table.entries.take c.sizing.capacity = xs.take c.sizing.capacity := by
          rw [split, List.take_append_of_le_length (by omega)]
        split
        · rename_i e' table eq
          rw [eq] at step rest
          refine ⟨step.1, step.2.trans ?_⟩
          simp only [Cache.count, rest, cut]
        · rename_i table eq
          rw [eq] at evicted
          cases evicted
    · rename_i within
      exact ⟨wf, (List.take_of_length_le (by omega)).symm⟩

/-! ## Storing one object -/

variable {c : Cache ι α} {right : Answers ι α}
variable {id : ι} {value : α} {position? : Option Nat}

@[simp] theorem place_sizing : (c.place id value position?).sizing = c.sizing :=
  shed_sizing _ _

@[simp] theorem place_size? : (c.place id value position?).size? = c.size? :=
  shed_size? _ _

theorem place_wellFormed (wf : c.table.WellFormed) :
    (c.place id value position?).table.WellFormed :=
  have inserted := wf.insert id value position?
  (shed_table inserted (Nat.le_of_eq inserted.size_eq.symm)).1

theorem entries_place (wf : c.table.WellFormed) :
    (c.place id value position?).table.entries =
      (⟨value, id,
          position?.or ((c.table.entries.find? fun x => x.id = id).bind fun x => x.position?)⟩ ::
        (c.table.entries.filter fun x => x.id ≠ id).map fun x => x.vacate position?).take
        c.sizing.capacity := by
  rw [← wf.entries_insert]
  have inserted := wf.insert id value position?
  exact (shed_table inserted (Nat.le_of_eq inserted.size_eq.symm)).2

theorem mem_place {e : Entry ι α} (wf : c.table.WellFormed)
    (mem : e ∈ (c.place id value position?).table.entries) :
    e = ⟨value, id,
        position?.or ((c.table.entries.find? fun x => x.id = id).bind fun x => x.position?)⟩ ∨
      ∃ x ∈ c.table.entries, x.id ≠ id ∧ e = x.vacate position? := by
  rw [entries_place wf] at mem
  rcases List.mem_cons.1 (List.mem_of_mem_take mem) with new | old
  · exact Or.inl new
  · obtain ⟨x, mem', rfl⟩ := List.mem_map.1 old
    obtain ⟨mem', ne⟩ := List.mem_filter.1 mem'
    exact Or.inr ⟨x, mem', of_decide_eq_true ne, rfl⟩

theorem Stocked.place (stocked : c.Stocked right)
    (new : right.entry ⟨value, id,
      position?.or ((c.table.entries.find? fun x => x.id = id).bind fun x => x.position?)⟩) :
    (c.place id value position?).Stocked right where
  table := place_wellFormed stocked.table
  fits := by
    rw [entries_place stocked.table, place_sizing]
    exact List.length_take_le _ _
  entries e mem := by
    rcases mem_place stocked.table mem with rfl | ⟨x, mem', -, rfl⟩
    · exact new
    · exact (stocked.entries x mem').vacate position?
  size n known := stocked.size n (place_size?.symm.trans known)

/-- An object of a new identity, stored without a position. -/
theorem Stocked.placeNew (stocked : c.Stocked right) (absent : c.table.ofId? id = none)
    (named : right.named id (some value)) : (c.place id value none).Stocked right := by
  have unknown : c.table.entries.find? (fun x => x.id = id) = none := by
    refine List.find?_eq_none.2 fun e mem same => ?_
    exact stocked.table.ofId?_eq_none_iff.1 absent e mem (of_decide_eq_true same)
  refine stocked.place ⟨named, fun p at_p => ?_⟩
  rw [unknown] at at_p
  cases at_p

/-- Entries in front with other keys stay there behind the new one, as far as there is
room. -/
theorem entries_place_front (wf : c.table.WellFormed) {position : Nat}
    {front back : List (Entry ι α)}
    (split : c.table.entries = front.take c.sizing.capacity ++ back)
    (others : ∀ e ∈ front, e.id ≠ id ∧ e.position? ≠ some position) :
    ∃ back', (c.place id value (some position)).table.entries =
      ((⟨value, id, some position⟩ : Entry ι α) :: front).take c.sizing.capacity ++ back' := by
  have others' : ∀ e ∈ front.take c.sizing.capacity, e.id ≠ id ∧ e.position? ≠ some position :=
    fun e mem => others e (List.mem_of_mem_take mem)
  have kept : ((front.take c.sizing.capacity).filter fun x => x.id ≠ id) =
      front.take c.sizing.capacity :=
    List.filter_eq_self.2 fun e mem => decide_eq_true (others' e mem).1
  have bound : (front.take c.sizing.capacity).map (fun x => x.vacate (some position)) =
      front.take c.sizing.capacity := by
    refine (List.map_congr_left fun e mem => ?_).trans (List.map_id _)
    exact Entry.vacate_of_ne (others' e mem).2
  -- the first of those that were cut off already would be the next to go
  have cut : ∀ new : Entry ι α, (new :: front.take c.sizing.capacity).take c.sizing.capacity =
      (new :: front).take c.sizing.capacity := by
    intro new
    obtain ⟨room, eq⟩ := Nat.exists_eq_succ_of_ne_zero (Nat.ne_of_gt c.sizing.capacity_pos)
    rw [eq, List.take_succ_cons, List.take_succ_cons, List.take_take,
      Nat.min_eq_left (Nat.le_succ _)]
  rw [entries_place wf, split, List.filter_append, List.map_append, kept, bound, Option.some_or,
    ← List.cons_append, List.take_append, cut]
  exact ⟨_, rfl⟩

/-! ## Storing a run -/

/-- The entries that objects fetched from `start` on are kept as. -/
def fetched (identify : α → Option ι) : Nat → List α → List (Entry ι α)
  | _, [] => []
  | start, v :: vs =>
    match identify v with
    | some id => ⟨v, id, some start⟩ :: fetched identify (start + 1) vs
    | none => fetched identify (start + 1) vs

variable {identify : α → Option ι} {start : Nat} {vs : List α}

omit [DecidableEq ι] in
theorem mem_fetched_iff {e : Entry ι α} :
    e ∈ fetched identify start vs ↔
      ∃ i, vs[i]? = some e.value ∧ identify e.value = some e.id ∧
        e.position? = some (start + i) := by
  induction vs generalizing start with
  | nil => simp [fetched]
  | cons v vs ih =>
    have rest : (∃ i, (v :: vs)[i]? = some e.value ∧ identify e.value = some e.id ∧
          e.position? = some (start + i)) ↔
        (v = e.value ∧ identify e.value = some e.id ∧ e.position? = some start) ∨
          e ∈ fetched identify (start + 1) vs := by
      rw [ih]
      constructor
      · intro ⟨i, at_i, same, bound⟩
        cases i with
        | zero => exact Or.inl ⟨Option.some.inj at_i, same, bound⟩
        | succ i => exact Or.inr ⟨i, at_i, same, by rw [bound, Nat.add_assoc, Nat.add_comm 1]⟩
      · intro either
        rcases either with ⟨rfl, same, bound⟩ | ⟨i, at_i, same, bound⟩
        · exact ⟨0, rfl, same, bound⟩
        · exact ⟨i + 1, at_i, same, by rw [bound, Nat.add_assoc, Nat.add_comm 1]⟩
    rw [rest, fetched]
    obtain ⟨value, id, position?⟩ := e
    split
    · rename_i id' found
      rw [List.mem_cons, Entry.mk.injEq]
      refine or_congr_left ⟨?_, ?_⟩
      · intro ⟨value_eq, id_eq, bound⟩
        exact ⟨value_eq.symm, by rw [value_eq, id_eq, found], bound⟩
      · intro ⟨value_eq, same, bound⟩
        subst value_eq
        exact ⟨rfl, Option.some.inj (same.symm.trans found), bound⟩
    · rename_i absent
      refine (or_iff_right ?_).symm
      intro ⟨value_eq, same, _⟩
      subst value_eq
      exact absurd (absent.symm.trans same) (by simp)

omit [DecidableEq ι] in
theorem length_fetched_le : (fetched identify start vs).length ≤ vs.length := by
  induction vs generalizing start with
  | nil => exact Nat.le_refl _
  | cons v vs ih =>
    rw [fetched]
    split
    · exact Nat.succ_le_succ ih
    · exact Nat.le_succ_of_le ih

@[simp] theorem keep_sizing {v : α} {position : Nat} :
    (c.keep identify v position).sizing = c.sizing := by
  unfold keep
  split
  · exact place_sizing
  · rfl

@[simp] theorem keepAll_sizing : (c.keepAll identify start vs).sizing = c.sizing := by
  induction vs generalizing c start with
  | nil => rfl
  | cons v vs ih => rw [keepAll, ih, keep_sizing]

@[simp] theorem keep_size? {v : α} {position : Nat} :
    (c.keep identify v position).size? = c.size? := by
  unfold keep
  split
  · exact place_size?
  · rfl

@[simp] theorem keepAll_size? : (c.keepAll identify start vs).size? = c.size? := by
  induction vs generalizing c start with
  | nil => rfl
  | cons v vs ih => rw [keepAll, ih, keep_size?]

theorem keep_wellFormed {v : α} {position : Nat} (wf : c.table.WellFormed) :
    (c.keep identify v position).table.WellFormed := by
  unfold keep
  split
  · exact place_wellFormed wf
  · exact wf

/-- Objects of different identities, fetched together, end up in front in reverse
order, as many of them as fit. -/
theorem entries_keepAll (wf : c.table.WellFormed) {front back : List (Entry ι α)}
    (split : c.table.entries = front.take c.sizing.capacity ++ back)
    (ids : ((fetched identify start vs ++ front).map (·.id)).Nodup)
    (before : ∀ e ∈ front, ∀ p, e.position? = some p → p < start) :
    ∃ back', (c.keepAll identify start vs).table.entries =
      ((fetched identify start vs).reverse ++ front).take c.sizing.capacity ++ back' := by
  induction vs generalizing c start front back with
  | nil => exact ⟨back, split⟩
  | cons v vs ih =>
    rw [keepAll]
    cases found : identify v with
    | none =>
      simp only [fetched, found] at ids ⊢
      rw [keep, found]
      exact ih wf split ids fun e mem p at_e => Nat.lt_succ_of_lt (before e mem p at_e)
    | some id =>
      simp only [fetched, found, List.cons_append, List.map_cons, List.nodup_cons] at ids ⊢
      obtain ⟨fresh, ids⟩ := ids
      have others : ∀ e ∈ front, e.id ≠ id ∧ e.position? ≠ some start := by
        intro e mem
        refine ⟨fun same => fresh ?_, fun at_e => Nat.lt_irrefl _ (before e mem start at_e)⟩
        exact same ▸ List.mem_map_of_mem (List.mem_append_right _ mem)
      obtain ⟨back', placed⟩ : ∃ back', (c.keep identify v start).table.entries =
          ((⟨v, id, some start⟩ : Entry ι α) :: front).take c.sizing.capacity ++ back' := by
        rw [keep, found]
        exact entries_place_front wf split others
      have ids' : ((fetched identify (start + 1) vs ++ ⟨v, id, some start⟩ :: front).map
          (·.id)).Nodup := by
        rw [List.map_append, List.map_cons, List.nodup_middle, ← List.map_append]
        exact List.nodup_cons.2 ⟨fresh, ids⟩
      have before' : ∀ e ∈ (⟨v, id, some start⟩ : Entry ι α) :: front,
          ∀ p, e.position? = some p → p < start + 1 := by
        intro e mem p at_e
        rcases List.mem_cons.1 mem with rfl | mem
        · cases at_e
          exact Nat.lt_succ_self _
        · exact Nat.lt_succ_of_lt (before e mem p at_e)
      have sizing : (c.keep identify v start).sizing = c.sizing := keep_sizing
      rw [← sizing] at placed
      obtain ⟨back'', rest⟩ := ih (keep_wellFormed wf) placed ids' before'
      rw [sizing] at rest
      exact ⟨back'', by rw [rest, List.reverse_cons, List.append_assoc]; rfl⟩

theorem Stocked.keepAll (stocked : c.Stocked right)
    (named : ∀ p v id, right.item p v → identify v = some id → right.named id (some v))
    (run : right.run start vs) : (c.keepAll identify start vs).Stocked right := by
  induction vs generalizing c start with
  | nil => exact stocked
  | cons v vs ih =>
    obtain ⟨item, rest⟩ := Answers.run_cons.1 run
    refine ih ?_ rest
    unfold keep
    split
    · rename_i id found
      refine stocked.place ⟨named start v id item found, fun p at_p => ?_⟩
      cases at_p
      exact item
    · exact stocked

/-! ## Serving -/

theorem Stocked.count (stocked : c.Stocked right) (f : Stats → Stats) :
    (c.count f).Stocked right :=
  ⟨stocked.table, stocked.fits, stocked.entries, stocked.size⟩

theorem mem_entries_promote {t : Table ι α} {h : Handle} {e x : Entry ι α} (wf : t.WellFormed)
    (here : t.entry? h = some e) : x ∈ (t.promote h).entries ↔ x ∈ t.entries := by
  have mem := wf.mem_of_entry? here
  rw [wf.entries_promote here, List.mem_cons, List.mem_filter, decide_eq_true_eq]
  constructor
  · intro either
    rcases either with rfl | ⟨mem, -⟩
    · exact mem
    · assumption
  · intro mem'
    by_cases same : x.id = e.id
    · exact Or.inl (wf.eq_of_id mem' mem same)
    · exact Or.inr ⟨mem', same⟩

theorem Stocked.promote (stocked : c.Stocked right) {h : Handle} {e : Entry ι α}
    (here : c.table.entry? h = some e) :
    { c with table := c.table.promote h }.Stocked right where
  table := stocked.table.promote here
  fits := by
    rw [← (stocked.table.promote here).size_eq]
    exact stocked.table.size_eq ▸ stocked.fits
  entries x mem := stocked.entries x ((mem_entries_promote stocked.table here).1 mem)
  size := stocked.size

/-- A hit serves the entry and moves it to the front. -/
theorem hit_eq (wf : c.table.WellFormed) {h : Handle} {e : Entry ι α}
    (here : c.table.entry? h = some e) :
    c.hit h = (.ok e.value, { c with table := c.table.promote h }.count .hit) := by
  simp only [hit, Cache.count, wf.entry?_promote here]

theorem Stocked.hit (stocked : c.Stocked right) {h : Handle} {e : Entry ι α}
    (here : c.table.entry? h = some e) : (c.hit h).2.Stocked right := by
  rw [hit_eq stocked.table here]
  exact (stocked.promote here).count .hit

end Cache

end ReadThrough
