import ReadThrough.Proofs.Cache.Asking
import ReadThrough.Proofs.Cache.Exactness
import ReadThrough.Proofs.Cache.Rebinding
import ReadThrough.Proofs.Fronted.Direct
import ReadThrough.Proofs.Shelf.Edited

/-!
# Positions of objects that share an identity

A shelf may hold several objects of one identity.  A cache has room for one of them at
a time, and what is fetched for a position is answered from the cache.  So a miss fails
where its window brings a later object that takes the identity away.

* `Cache.Overtakes` says of a position that this is what a read of it will do.
* `Fronted.Used` are the states that any use leads to, whatever the identities.
* `Fronted.get_of_used`: a read of a position that exists gives the object there,
  unless it is overtaken.
* `Fronted.missing_of_twins`: two neighbours that share an identity are enough.
-/

namespace ReadThrough

variable {ι α β : Type}

namespace Shelf

variable {s : Shelf ι α} {w : Window}

/-- The identity of the object at a position. -/
def idAt? (s : Shelf ι α) (p : Nat) : Option ι := s.items[p]?.bind s.identify

/-- The objects in a window. -/
def within (s : Shelf ι α) (w : Window) : List α := (s.items.drop w.start).take w.length

theorem getElem?_within {j : Nat} (lt : j < w.length) :
    (s.within w)[j]? = s.items[w.start + j]? := by
  rw [within, List.getElem?_take_of_lt lt, List.getElem?_drop]

theorem range_within (countable : s.size < wordLimit) (stop : w.start + w.length ≤ s.size) :
    s.range w.start w.length = .ok (s.within w) := by
  rw [range, guardRange_eq_ok_iff.2 ⟨by omega, stop⟩]
  rfl

end Shelf

variable [DecidableEq ι]

namespace Cache

/-- The position is not cached, and the window of a miss at it reaches a later object of
the same identity. -/
def Overtakes (c : Cache ι α) (s : Shelf ι α) (p : Nat) : Prop :=
  c.coversPosition p = false ∧ ∃ id q, s.idAt? p = some id ∧ p < q ∧
    q < (c.missWindow p s.size).stop ∧ s.idAt? q = some id

variable {c : Cache ι α} {s : Shelf ι α} {p : Nat} {v : α}

/-- The size is known or asked for; nothing else happens. -/
theorem getSize_shelf (stocked : c.Stocked s.placed) :
    ∃ c', getSize Shelf.source c s = (.ok s.size, c', s) ∧ c'.table = c.table ∧
      c'.sizing = c.sizing ∧ c'.Stocked s.placed := by
  have served := getSize_served s.truthful_placed stocked rfl
  unfold getSize at served ⊢
  cases known : c.size? with
  | some n =>
    have size : n = s.size := stocked.size n known
    exact ⟨c, by rw [size], rfl, rfl, stocked⟩
  | none =>
    simp only [known] at served
    exact ⟨_, rfl, rfl, rfl, served.stocked⟩

/-- An object with an identity that has no entry is missing; every other one is
answered with. -/
theorem answerFetched_shelf (wf : c.table.WellFormed) (identify : α → Option ι) :
    ((identify v = none ∨ ∃ e ∈ c.table.entries, e.position? = some p) ∧
        ∃ w, (c.answerFetched identify p (some v)).1 = .ok w) ∨
      (¬ (identify v = none ∨ ∃ e ∈ c.table.entries, e.position? = some p) ∧
        (c.answerFetched identify p (some v)).1 =
          .error (.inconsistent (.missingAfterFetch p))) := by
  by_cases there : identify v = none ∨ ∃ e ∈ c.table.entries, e.position? = some p
  · exact Or.inl ⟨there, answerFetched_ok wf there⟩
  · refine Or.inr ⟨there, ?_⟩
    obtain ⟨named, absent⟩ := not_or.1 there
    have unbound : c.table.atPosition? p = none :=
      wf.atPosition?_eq_none_iff.2 fun e mem at_e => absent ⟨e, mem, at_e⟩
    have named' : (identify v).isNone = false := by
      rw [Option.isNone_eq_false_iff, Option.isSome_iff_ne_none]
      exact named
    simp only [answerFetched, unbound, named', Bool.false_eq_true, if_false]

/-- What a miss leaves in the cache before it answers. -/
def afterMiss (c : Cache ι α) (s : Shelf ι α) (p : Nat) : Cache ι α :=
  let w := c.missWindow p s.size
  ((c.count (·.miss 1)).count (·.fetch w.length)).keepAll s.identify w.start (s.within w)

/-- The window of a miss lies on the shelf and fits into the cache. -/
structure Fits (c : Cache ι α) (s : Shelf ι α) (p : Nat) (w : Window) : Prop where
  start_le : w.start ≤ p
  lt_stop : p < w.stop
  stop_eq : w.start + w.length = w.stop
  stop_le : w.stop ≤ s.size
  short : w.length ≤ c.sizing.capacity

omit [DecidableEq ι] in
theorem fits_missWindow (inside : p < s.size) : c.Fits s p (c.missWindow p s.size) := by
  have first : (c.missWindow p s.size).start ≤ p := Window.start_around_le
  have last : p < (c.missWindow p s.size).stop := Window.lt_stop_around
  refine ⟨first, last, ?_, Window.stop_around_le inside, ?_⟩
  · rw [Window.length]
    omega
  · exact Nat.le_trans (Window.length_around_le c.sizing.chunk_pos) c.sizing.chunk_le

theorem getMissing_shelf (countable : s.size < wordLimit) (here : s.items[p]? = some v) :
    (getMissing Shelf.source p s.size c s).1 =
      ((c.afterMiss s p).answerFetched s.identify p (some v)).1 := by
  have fits := fits_missWindow (c := c) (List.getElem?_eq_some_iff.1 here).1
  have brought := Shelf.range_within (w := c.missWindow p s.size) countable
    (fits.stop_eq ▸ fits.stop_le)
  have count := Shelf.length_range brought
  have requested : (s.within (c.missWindow p s.size))[p - (c.missWindow p s.size).start]? =
      some v := by
    obtain ⟨first, last, stop, -, -⟩ := fits
    rw [Shelf.getElem?_within (by omega), Nat.add_sub_cancel' first, here]
  simp only [getMissing, fetchRange, Shelf.source, brought, count, if_true, requested, afterMiss]

/-- After a miss the position has an entry unless it was overtaken. -/
theorem overtakes_iff (wf : c.table.WellFormed) (here : s.items[p]? = some v)
    (absent : c.table.atPosition? p = none) :
    c.Overtakes s p ↔ ¬ (s.identify v = none ∨
      ∃ e ∈ (c.afterMiss s p).table.entries, e.position? = some p) := by
  obtain ⟨w, window⟩ : ∃ w, w = c.missWindow p s.size := ⟨_, rfl⟩
  obtain ⟨first, last, stop, within, short⟩ : c.Fits s p w :=
    window ▸ fits_missWindow (List.getElem?_eq_some_iff.1 here).1
  have named : s.idAt? p = s.identify v := by rw [Shelf.idAt?, here]; rfl
  have at_p : (s.within w)[p - w.start]? = some v := by
    rw [Shelf.getElem?_within (by omega), Nat.add_sub_cancel' first, here]
  have absent' : ∀ e ∈ c.table.entries, e.position? ≠ some (w.start + (p - w.start)) := by
    rw [Nat.add_sub_cancel' first]
    exact wf.atPosition?_eq_none_iff.1 absent
  have wf' : ((c.count (·.miss 1)).count (·.fetch w.length)).table.WellFormed := wf
  have kept : (∃ e ∈ (((c.count (·.miss 1)).count (·.fetch w.length)).keepAll s.identify w.start
        (s.within w)).table.entries, e.position? = some (w.start + (p - w.start))) ↔
      ∃ id, s.identify v = some id ∧ ∀ (j : Nat) x, p - w.start < j →
        (s.within w)[j]? = some x → s.identify x ≠ some id :=
    exists_kept_iff wf' at_p absent' (Nat.le_trans (List.length_take_le _ _) short)
  rw [Nat.add_sub_cancel' first] at kept
  rw [afterMiss, ← window, kept, not_or, Overtakes, coversPosition_eq_false_iff, ← window, named]
  constructor
  · intro ⟨_, id, q, id_p, after, before, id_q⟩
    refine ⟨by rw [id_p]; exact Option.some_ne_none id, fun ⟨id', id_p', later⟩ => ?_⟩
    cases id_p.symm.trans id_p'
    obtain ⟨x, at_q, id_x⟩ := Option.bind_eq_some_iff.1 id_q
    refine later (q - w.start) x (by omega) ?_ id_x
    rw [Shelf.getElem?_within (by omega), Nat.add_sub_cancel' (by omega), at_q]
  · intro ⟨identified, taken⟩
    obtain ⟨id, id_p⟩ := Option.ne_none_iff_exists'.1 identified
    refine ⟨absent, id, ?_⟩
    by_contra free
    refine taken ⟨id, id_p, fun j x lt at_x id_x => free ?_⟩
    have lt' : j < w.length :=
      Nat.lt_of_lt_of_le (List.getElem?_eq_some_iff.1 at_x).1 (List.length_take_le _ _)
    rw [Shelf.getElem?_within lt'] at at_x
    exact ⟨w.start + j, id_p, by omega, by omega, by rw [Shelf.idAt?, at_x]; exact id_x⟩

/-- A read of a position that exists fails exactly where it is overtaken. -/
theorem get_shelf (stocked : c.Stocked s.placed) (countable : s.size < wordLimit)
    (here : s.items[p]? = some v) :
    (¬ c.Overtakes s p ∧ (get Shelf.source p c s).1 = .ok v) ∨
      (c.Overtakes s p ∧ (get Shelf.source p c s).1 =
        .error (.inconsistent (.missingAfterFetch p))) := by
  have served := get_served s.truthful_placed stocked rfl p
  have right : ∀ w, (get Shelf.source p c s).1 = .ok w → w = v := fun w answer =>
    Option.some.inj ((served.answer w answer).symm.trans here)
  obtain ⟨c', sized, table, sizing, stocked'⟩ := getSize_shelf stocked
  have inside : guardPosition p s.size = .ok () :=
    guardPosition_eq_ok_iff.2 (List.getElem?_eq_some_iff.1 here).1
  have covers : c'.coversPosition = c.coversPosition := funext fun q => by
    rw [coversPosition, table, coversPosition]
  have same : c'.Overtakes s p ↔ c.Overtakes s p := by
    rw [Overtakes, Overtakes, missWindow, missWindow, covers, sizing]
  simp only [get, sized, inside, table] at right ⊢
  cases found : c.table.atPosition? p with
  | some h =>
    obtain ⟨e, entry, -⟩ := stocked.table.exists_of_atPosition? found
    have hit := hit_eq stocked'.table (table ▸ entry)
    refine Or.inl ⟨fun overtakes => ?_, ?_⟩
    · exact Option.some_ne_none h (found.symm.trans (coversPosition_eq_false_iff.1 overtakes.1))
    · simp only [found, hit] at right ⊢
      rw [right _ rfl]
  | none =>
    simp only [found] at right ⊢
    rw [getMissing_shelf countable here] at right ⊢
    have absent : c'.table.atPosition? p = none := table ▸ found
    rw [← same, overtakes_iff stocked'.table here absent, not_not]
    have wf : (c'.afterMiss s p).table.WellFormed := keepAll_wellFormed stocked'.table
    rcases answerFetched_shelf (p := p) (v := v) wf s.identify with
      ⟨there, w, answer⟩ | ⟨missing, answer⟩
    · rw [answer, right w answer]
      exact Or.inl ⟨there, rfl⟩
    · exact Or.inr ⟨missing, answer⟩

end Cache

namespace Fronted

variable [ToString ι]

/-- The states that reads, edits and clearing lead to, over a shelf that can always be
counted, whatever identities its objects have. -/
inductive Used (sizing : Sizing) : Fronted ι α → Prop
  | new {s : Shelf ι α} : s.size < wordLimit → Used sizing (new s sizing)
  | query {f : Fronted ι α} (q : Query ι) : Used sizing f → Used sizing (f.query q).2
  | edit {β : Type} {f : Fronted ι α} {e : Shelf ι α → Edit ι α β} : Shelf.Mutator e →
    Used sizing f → (f.edit e).2.shelf.size < wordLimit → Used sizing (f.edit e).2
  | clear {f : Fronted ι α} : Used sizing f → Used sizing f.clear

variable {f : Fronted ι α} {sizing : Sizing} {p : Nat} {v : α}

/-- A cache that was used holds what stands on its shelf. -/
theorem Used.placed (used : Used sizing f) :
    f.cache.Stocked f.shelf.placed ∧ f.shelf.size < wordLimit := by
  induction used with
  | new countable => exact ⟨.empty, countable⟩
  | @query f q _ ih =>
    have served := Cache.query_served f.shelf.truthful_placed ih.1 rfl q
    have same : (f.query q).2.shelf = f.shelf := served.inv
    rw [same]
    exact ⟨served.stocked, ih.2⟩
  | edit mutator _ countable ih => exact ⟨(mutator.edited _).stocked ih.1, countable⟩
  | clear _ ih => exact ⟨.clear, ih.2⟩

/-- A read of a position that exists gives the object there, unless the miss is
overtaken; then it fails, and only then. -/
theorem get_of_used (used : Used sizing f) (here : f.shelf.items[p]? = some v) :
    (¬ f.cache.Overtakes f.shelf p ∧ (f.get p).1 = .ok v) ∨
      (f.cache.Overtakes f.shelf p ∧
        (f.get p).1 = .error (.inconsistent (.missingAfterFetch p))) :=
  Cache.get_shelf used.placed.1 used.placed.2 here

/-- Two neighbours share an identity, so that a read of the first fails. -/
def twins : Fronted Nat (Nat × Nat) :=
  new ⟨[(7, 0), (7, 1)], fun v => some v.1⟩ ⟨3, 3, by decide, by decide⟩

theorem used_twins : Used ⟨3, 3, by decide, by decide⟩ twins := .new (by decide)

theorem get_of_used_twins :
    (¬ twins.cache.Overtakes twins.shelf 1 ∧ (twins.get 1).1 = .ok (7, 1)) ∨
      (twins.cache.Overtakes twins.shelf 1 ∧
        (twins.get 1).1 = .error (.inconsistent (.missingAfterFetch 1))) :=
  get_of_used (v := (7, 1)) used_twins rfl

/-- The object at a position that exists is not given although nothing went wrong. -/
theorem missing_of_twins :
    Used ⟨3, 3, by decide, by decide⟩ twins ∧ twins.shelf.items[0]? = some (7, 0) ∧
      (twins.get 0).1 = .error (.inconsistent (.missingAfterFetch 0)) :=
  ⟨used_twins, rfl, by decide⟩

end Fronted

end ReadThrough
