import ReadThrough.Proofs.Cache.Changes
import ReadThrough.Proofs.Cache.Reading
import ReadThrough.Proofs.Table.Audit
import ReadThrough.Shelf

/-!
# Reachable caches

A cache may be used over any sources whatever, one after another.  They may repeat
identities, contradict themselves, bring too much or too little, or fail, and
changes may be announced that never happened.  Its bookkeeping stays intact.

* `Cache.Reachable` are the states of a cache that has been used in any way.
* `Cache.Sound` is the agreement of list and indexes, within the capacity.
* `sound_of_reachable`: every reachable cache is sound.
-/

namespace ReadThrough.Cache

variable {ι α : Type} [DecidableEq ι]

/-- The states that a cache of these sizes can get into.  Each read may go to
another source, in any state. -/
inductive Reachable (sizing : Sizing) : Cache ι α → Prop
  | empty : Reachable sizing (empty sizing)
  | query {σ : Type} {c : Cache ι α} (src : Source σ ι α) (q : Query ι) (s : σ) :
    Reachable sizing c → Reachable sizing (query src q c s).2.1
  | clear {c : Cache ι α} : Reachable sizing c → Reachable sizing c.clear
  | apply {c : Cache ι α} (change : Change ι) :
    Reachable sizing c → Reachable sizing (c.apply change)

/-- List and indexes describe the same entries, no more than the capacity allows. -/
structure Sound (c : Cache ι α) : Prop where
  nodup : (c.table.entries.map (·.id)).Nodup
  entries : ∀ e, e ∈ c.table.entries ↔ ∃ h, c.table.entry? h = some e
  ids : ∀ id h, c.table.ofId? id = some h ↔ ∃ e, c.table.entry? h = some e ∧ e.id = id
  positions : ∀ p h,
    c.table.atPosition? p = some h ↔ ∃ e, c.table.entry? h = some e ∧ e.position? = some p
  fits : c.table.entries.length ≤ c.sizing.capacity
  audit : c.audit = .ok ()

variable {c : Cache ι α} {right : Answers ι α} {sizing : Sizing}

theorem Stocked.sound (stocked : c.Stocked right) : c.Sound where
  nodup := stocked.table.nodup_ids
  entries _ := stocked.table.mem_entries_iff
  ids id h := by
    constructor
    · exact fun found => stocked.table.exists_of_ofId? found
    · intro ⟨e, here, same⟩
      exact (Table.Holds.ids stocked.table id h).2
        ⟨e, (Table.Holds.entry?_eq_some_iff stocked.table).1 here, same⟩
  positions p h := by
    constructor
    · exact fun found => stocked.table.exists_of_atPosition? found
    · intro ⟨e, here, at_e⟩
      exact (Table.Holds.positions stocked.table p h).2
        ⟨e, (Table.Holds.entry?_eq_some_iff stocked.table).1 here, at_e⟩
  fits := stocked.fits
  audit := by
    have within : ¬ c.sizing.capacity < c.length := by
      rw [length, stocked.table.size_eq]
      exact Nat.not_lt.2 stocked.fits
    simp only [audit, stocked.table.audit_eq, if_neg within]

theorem Reachable.stocked (reachable : Reachable sizing c) :
    c.Stocked .any ∧ c.sizing = sizing := by
  induction reachable with
  | empty => exact ⟨.empty, rfl⟩
  | query src q s _ ih =>
    have served := query_served src.truthful_any ih.1 (s := s) trivial q
    exact ⟨served.stocked, served.sizing.trans ih.2⟩
  | clear _ ih => exact ⟨.clear, ih.2⟩
  | apply change _ ih =>
    exact ⟨ih.1.apply (fun _ entry _ => entry) fun _ _ size => size, apply_sizing.trans ih.2⟩

/-- However a cache was used, list and indexes agree and the capacity is kept. -/
theorem sound_of_reachable (reachable : Reachable sizing c) : c.Sound ∧ c.sizing = sizing :=
  ⟨reachable.stocked.1.sound, reachable.stocked.2⟩

/-- A shelf that repeats an identity, and a range with its bounds the wrong way
round. -/
theorem sound_over_repeats :
    let shelf : Shelf Nat Nat := ⟨[7, 7, 8], some⟩
    let c := (query Shelf.source (.get 1) (empty ⟨2, 2, by decide, by decide⟩) shelf).2.1
    (c.apply (.rangeChanged 2 0)).Sound :=
  (sound_of_reachable (.apply _ (.query _ _ _ .empty))).1

end ReadThrough.Cache
