import ReadThrough.Cache.Read
import ReadThrough.Proofs.Cache.Changes
import ReadThrough.Proofs.Cache.Reachable
import ReadThrough.Proofs.Shelf.Distinct

/-!
# Coherent caches

A cache is coherent with a shelf if all it holds is what the shelf holds.  A change
that is announced truthfully should leave it coherent with what the shelf holds
afterwards.

* `Change.Announces`: what it means for a change to be the truth about two shelves.
* `Cache.coherent_apply_iff`: handling a truthful change keeps a cache coherent
  exactly if no object changed that was announced by its position only and is cached
  without one.
* `Cache.stale_after_rangeChanged`: such a cache is reachable.
-/

namespace ReadThrough

variable {ι α : Type} [DecidableEq ι]

/-- Entries and known size are those of the shelf. -/
structure Cache.Coherent (c : Cache ι α) (s : Shelf ι α) : Prop where
  items : ∀ e ∈ c.table.entries, ∀ p, e.position? = some p → s.items[p]? = some e.value
  named : ∀ e ∈ c.table.entries, s.byId? e.id = some e.value
  size : ∀ n, c.size? = some n → n = s.size

theorem Cache.coherent_iff {c : Cache ι α} {s : Shelf ι α} :
    c.Coherent s ↔ (∀ e ∈ c.table.entries, ∀ p ∈ e.position?, s.items[p]? = some e.value) ∧
      (∀ e ∈ c.table.entries, s.byId? e.id = some e.value) ∧ ∀ n ∈ c.size?, n = s.size :=
  ⟨fun coherent => ⟨coherent.items, coherent.named, coherent.size⟩,
    fun ⟨items, named, size⟩ => ⟨items, named, size⟩⟩

instance [DecidableEq α] {c : Cache ι α} {s : Shelf ι α} : Decidable (c.Coherent s) :=
  decidable_of_iff' _ Cache.coherent_iff

/-- The change tells what became of the first shelf. -/
def Change.Announces : Change ι → Shelf ι α → Shelf ι α → Prop
  | .objectAdded id, s, s' => ∃ v, s.identify v = some id ∧ s' = s.withItems (s.items ++ [v])
  | .objectChanged id, s, s' => ∃ (p : Nat) (v w : α), s.items[p]? = some v ∧
      s.identify v = some id ∧ s.identify w = some id ∧ s' = s.withItems (s.items.set p w)
  | .rangeChanged first last, s, s' =>
      first ≤ last ∧ s'.identify = s.identify ∧ s'.size = s.size ∧
        ∀ (p : Nat) (v w : α), s.items[p]? = some v → s'.items[p]? = some w →
          s.identify w = s.identify v ∧ (p < first ∨ last < p → w = v)
  | .objectDeleted _, s, s' | .rangeAdded _ _, s, s' | .rangeDeleted _ _, s, s'
  | .contentsChanged, s, s' => s'.identify = s.identify

namespace Cache

variable {c : Cache ι α} {s s' : Shelf ι α} {change : Change ι} {e : Entry ι α}

theorem Coherent.identify (coherent : c.Coherent s) (mem : e ∈ c.table.entries) :
    s.identify e.value = some e.id :=
  (Shelf.exists_of_byId? (coherent.named e mem)).1

/-- An entry that the change does not drop stands where it stood. -/
theorem Coherent.item_of_kept (coherent : c.Coherent s) (truth : change.Announces s s')
    (mem : e ∈ c.table.entries) (kept : change.drops e = false) {p : Nat}
    (at_p : s.items[p]? = some e.value)
    (told : ∀ first last, change = .rangeChanged first last → p < first ∨ last < p) :
    s'.items[p]? = some e.value := by
  cases change with
  | objectAdded id =>
    obtain ⟨v, -, rfl⟩ := truth
    exact (List.getElem?_append_left (List.getElem?_eq_some_iff.1 at_p).1).trans at_p
  | objectChanged id =>
    obtain ⟨q, v, w, at_q, hv, -, rfl⟩ := truth
    refine (List.getElem?_set_ne fun same => ?_).trans at_p
    cases same
    cases Option.some.inj (at_p.symm.trans at_q)
    cases (coherent.identify mem).symm.trans hv
    exact of_decide_eq_false kept rfl
  | rangeChanged first last =>
    obtain ⟨-, -, size, each⟩ := truth
    have lt : p < s'.items.length := by
      have lt : p < s.items.length := (List.getElem?_eq_some_iff.1 at_p).1
      exact Nat.lt_of_lt_of_eq lt size.symm
    have at_p' : s'.items[p]? = some s'.items[p] := List.getElem?_eq_getElem lt
    rw [at_p', (each p e.value _ at_p at_p').2 (told first last rfl)]
  | objectDeleted id => cases kept
  | rangeAdded first last => cases kept
  | rangeDeleted first last => cases kept
  | contentsChanged => cases kept

omit [DecidableEq ι] in
theorem identify_of_announces (truth : change.Announces s s') : s'.identify = s.identify := by
  cases change with
  | objectAdded id =>
    obtain ⟨v, -, rfl⟩ := truth
    rfl
  | objectChanged id =>
    obtain ⟨p, v, w, -, -, -, rfl⟩ := truth
    rfl
  | rangeChanged first last => exact truth.2.1
  | objectDeleted id => exact truth
  | rangeAdded first last => exact truth
  | rangeDeleted first last => exact truth
  | contentsChanged => exact truth

omit [DecidableEq ι] in
theorem size_of_announces (truth : change.Announces s s') (keeps : change.forgetsSize = false) :
    s'.size = s.size := by
  cases change with
  | objectChanged id =>
    obtain ⟨p, v, w, -, -, -, rfl⟩ := truth
    exact List.length_set
  | rangeChanged first last => exact truth.2.2.1
  | objectAdded id => cases keeps
  | objectDeleted id => cases keeps
  | rangeAdded first last => cases keeps
  | rangeDeleted first last => cases keeps
  | contentsChanged => cases keeps

/-- Handling a truthful change leaves the cache coherent, unless it keeps an object
that it does not know the position of and that changed with a range. -/
theorem coherent_apply_iff (wf : c.table.WellFormed) (coherent : c.Coherent s)
    (distinct' : s'.Distinct) (truth : change.Announces s s') :
    (c.apply change).Coherent s' ↔
      ∀ first last, change = .rangeChanged first last →
        ∀ e ∈ c.table.entries, e.position? = none → s'.byId? e.id = some e.value := by
  constructor
  · intro coherent' first last eq e mem unplaced
    refine coherent'.named e ?_
    have kept : change.drops e = false := by
      rw [eq, Change.drops, Entry.standsWithin, unplaced]
      rfl
    rw [entries_apply wf, List.mem_filter, Bool.not_eq_true']
    exact ⟨mem, kept⟩
  · intro unplaced
    have kept : ∀ e ∈ (c.apply change).table.entries,
        e ∈ c.table.entries ∧ change.drops e = false := by
      intro e mem
      rwa [entries_apply wf, List.mem_filter, Bool.not_eq_true'] at mem
    have named : ∀ e ∈ c.table.entries, ∀ q : Nat, s'.items[q]? = some e.value →
        s'.byId? e.id = some e.value := by
      intro e mem q at_q
      refine distinct'.byId?_eq at_q ?_
      rw [identify_of_announces truth]
      exact coherent.identify mem
    have items : ∀ e ∈ (c.apply change).table.entries, ∀ p, e.position? = some p →
        s'.items[p]? = some e.value := by
      intro e mem p at_e
      obtain ⟨mem, keep⟩ := kept e mem
      refine coherent.item_of_kept truth mem keep (coherent.items e mem p at_e) ?_
      intro first last eq
      rw [eq, Change.drops, Entry.standsWithin, at_e] at keep
      simp only [Option.any_some, Bool.and_eq_false_iff, decide_eq_false_iff_not] at keep
      omega
    refine ⟨items, fun e mem => ?_, fun n known => ?_⟩
    · obtain ⟨mem', keep⟩ := kept e mem
      cases at_e : e.position? with
      | some p => exact named e mem' p (items e mem p at_e)
      | none =>
        by_cases range : ∃ first last, change = .rangeChanged first last
        · obtain ⟨first, last, eq⟩ := range
          exact unplaced first last eq e mem' at_e
        · obtain ⟨-, q, at_q⟩ := Shelf.exists_of_byId? (coherent.named e mem')
          refine named e mem' q (coherent.item_of_kept truth mem' keep at_q ?_)
          exact fun first last eq => absurd ⟨first, last, eq⟩ range
    · rw [size?_apply] at known
      split at known
      · cases known
      · rename_i keeps
        rw [size_of_announces truth (Bool.eq_false_iff.2 keeps)]
        exact coherent.size n known

/-- The labelled objects, each identified by its number. -/
def labelled (items : List (Nat × Nat)) : Shelf Nat (Nat × Nat) := ⟨items, fun v => some v.1⟩

/-- An object cached with its position, and one without. -/
def twoRead : Cache Nat (Nat × Nat) :=
  let s := labelled [(7, 0), (8, 0)]
  let c := (query Shelf.source (.get 0) (empty ⟨2, 1, by decide, by decide⟩) s).2.1
  (query Shelf.source (.byId 8) c s).2.1

theorem twoRead_reachable : Reachable ⟨2, 1, by decide, by decide⟩ twoRead :=
  .query _ _ _ (.query _ _ _ .empty)

theorem coherent_after_objectChanged :
    (twoRead.apply (.objectChanged 8)).Coherent (labelled [(7, 0), (8, 1)]) := by
  refine (coherent_apply_iff (s := labelled [(7, 0), (8, 0)]) twoRead_reachable.stocked.1.table
    (by decide) (by decide) ?_).2 ?_
  · exact ⟨1, (8, 0), (8, 1), rfl, rfl, rfl, rfl⟩
  · intro first last eq
    cases eq

/-- An object that was read by its identity stays as it was when its position is
announced to have changed. -/
theorem stale_after_rangeChanged :
    Reachable ⟨2, 1, by decide, by decide⟩ twoRead ∧
      twoRead.Coherent (labelled [(7, 0), (8, 0)]) ∧
      (labelled [(7, 0), (8, 0)]).Distinct ∧ (labelled [(7, 0), (8, 1)]).Distinct ∧
      (Change.rangeChanged 1 1).Announces (labelled [(7, 0), (8, 0)]) (labelled [(7, 0), (8, 1)]) ∧
      ¬ (twoRead.apply (.rangeChanged 1 1)).Coherent (labelled [(7, 0), (8, 1)]) := by
  refine ⟨twoRead_reachable, by decide, by decide, by decide, ?_, by decide⟩
  refine ⟨Nat.le_refl 1, rfl, rfl, fun p v w at_p at_p' => ?_⟩
  match p with
  | 0 =>
    cases at_p
    cases at_p'
    exact ⟨rfl, fun _ => rfl⟩
  | 1 =>
    cases at_p
    cases at_p'
    exact ⟨rfl, fun outside => by omega⟩

end Cache

end ReadThrough
