import Mathlib.Data.List.Nodup
import ReadThrough.Proofs.Cache.Coherence
import ReadThrough.Proofs.Fronted.Direct
import ReadThrough.Proofs.Reads.Serving
import ReadThrough.Proofs.Tower.Frugal

/-!
# Entries of a shelf

What a cache keeps of a shelf is decided by the shelf: an object is kept under its identity and
its position.  So the entries in front of a cache can be named by their positions.

* `Shelf.entry?` is the entry for a position, `Shelf.entries` are those for a list of them.
* `Source.Shows shelf inv`: the source brings nothing but the objects of the shelf.
* `Cache.Leads shelf positions`: the most recently used entries are those for these positions,
  in this order.
-/

namespace ReadThrough

variable {σ ι α : Type}

namespace Shelf

/-- What is kept of the object at a position, if it has an identity. -/
def entry? (s : Shelf ι α) (position : Nat) : Option (Entry ι α) :=
  s.items[position]?.bind fun v => (s.identify v).map fun id => ⟨v, id, some position⟩

/-- What is kept of the objects at these positions. -/
def entries (s : Shelf ι α) (positions : List Nat) : List (Entry ι α) :=
  positions.filterMap s.entry?

/-- Every object has an identity, and no two have the same. -/
structure Identified (s : Shelf ι α) : Prop where
  distinct : s.Distinct
  named : ∀ v ∈ s.items, (s.identify v).isSome = true

variable {s : Shelf ι α} {position p q : Nat} {e e' : Entry ι α} {positions : List Nat}

theorem entry?_eq_some_iff : s.entry? position = some e ↔ s.items[position]? = some e.value ∧
    s.identify e.value = some e.id ∧ e.position? = some position := by
  obtain ⟨value, id, position?⟩ := e
  unfold entry?
  rw [Option.bind_eq_some_iff]
  constructor
  · rintro ⟨v, at_p, kept⟩
    obtain ⟨id', named, eq⟩ := Option.map_eq_some_iff.1 kept
    cases eq
    exact ⟨at_p, named, rfl⟩
  · rintro ⟨at_p, named, rfl⟩
    exact ⟨value, at_p, Option.map_eq_some_iff.2 ⟨id, named, rfl⟩⟩

theorem Identified.exists_entry? (identified : s.Identified) (inside : position < s.size) :
    ∃ e, s.entry? position = some e := by
  have at_p : s.items[position]? = some s.items[position] := List.getElem?_eq_getElem inside
  obtain ⟨id, named⟩ := Option.isSome_iff_exists.1 (identified.named _ (List.getElem_mem inside))
  exact ⟨⟨_, id, some position⟩, entry?_eq_some_iff.2 ⟨at_p, named, rfl⟩⟩

/-- Entries for different positions have different identities. -/
theorem Distinct.position_unique (distinct : s.Distinct) (at_p : s.entry? p = some e)
    (at_q : s.entry? q = some e') (same : e.id = e'.id) : p = q := by
  obtain ⟨item, named, -⟩ := entry?_eq_some_iff.1 at_p
  obtain ⟨item', named', -⟩ := entry?_eq_some_iff.1 at_q
  exact distinct p q _ _ _ item item' named (same ▸ named')

theorem Distinct.nodup_ids (distinct : s.Distinct) (nodup : positions.Nodup) :
    ((s.entries positions).map (·.id)).Nodup := by
  have ids : (s.entries positions).map (·.id) =
      positions.filterMap fun p => Option.map (·.id) <| s.entry? p := by
    rw [entries, List.map_filterMap]
  rw [ids]
  refine nodup.filterMap fun p q id in_p in_q => ?_
  obtain ⟨e, at_p, rfl⟩ := Option.map_eq_some_iff.1 in_p
  obtain ⟨e', at_q, same⟩ := Option.map_eq_some_iff.1 in_q
  exact distinct.position_unique at_p at_q same.symm

theorem entries_append (ps qs : List Nat) :
    s.entries (ps ++ qs) = s.entries ps ++ s.entries qs := List.filterMap_append

theorem entries_reverse (ps : List Nat) : s.entries ps.reverse = (s.entries ps).reverse :=
  List.filterMap_reverse

theorem entries_cons (at_p : s.entry? p = some e) (ps : List Nat) :
    s.entries (p :: ps) = e :: s.entries ps := List.filterMap_cons_some at_p

/-- Leaving out an entry is leaving out its position. -/
theorem Distinct.entries_filter [DecidableEq ι] (distinct : s.Distinct)
    (at_p : s.entry? p = some e) (ps : List Nat) :
    ((s.entries ps).filter fun x => x.id ≠ e.id) = s.entries (ps.filter fun q => q ≠ p) := by
  rw [entries, List.filter_filterMap, entries, List.filterMap_filter]
  refine List.filterMap_congr fun q _ => ?_
  cases at_q : s.entry? q with
  | none => exact (ite_self none).symm
  | some x =>
    have iff : x.id ≠ e.id ↔ q ≠ p := by
      refine not_congr ⟨distinct.position_unique at_q at_p, fun same => ?_⟩
      cases same
      cases at_q.symm.trans at_p
      rfl
    rw [Option.filter_some, decide_eq_decide.2 iff]

/-- Where all objects have an identity, no position is left out. -/
theorem Identified.map_entries (identified : s.Identified) {ps : List Nat}
    (inside : ∀ p ∈ ps, p < s.size) : (s.entries ps).map some = ps.map s.entry? := by
  induction ps with
  | nil => rfl
  | cons p ps ih =>
    obtain ⟨e, at_p⟩ := identified.exists_entry? (inside p List.mem_cons_self)
    rw [entries_cons at_p, List.map_cons, List.map_cons, at_p,
      ih fun q mem => inside q (List.mem_cons_of_mem p mem)]

theorem Identified.length_entries (identified : s.Identified) {ps : List Nat}
    (inside : ∀ p ∈ ps, p < s.size) : (s.entries ps).length = ps.length := by
  rw [← List.length_map some, identified.map_entries inside, List.length_map]

theorem Identified.entries_take (identified : s.Identified) {ps : List Nat}
    (inside : ∀ p ∈ ps, p < s.size) (n : Nat) :
    (s.entries ps).take n = s.entries (ps.take n) := by
  refine List.map_injective_iff.2 (fun _ _ => Option.some.inj) ?_
  rw [List.map_take, identified.map_entries inside, ← List.map_take,
    identified.map_entries fun p mem => inside p (List.mem_of_mem_take mem)]

/-- A run of objects of the shelf is kept as the entries for its positions. -/
theorem entries_range' {start : Nat} {vs : List α}
    (run : ∀ (i : Nat) v, vs[i]? = some v → s.items[start + i]? = some v) :
    s.entries (List.range' start vs.length) = Cache.fetched s.identify start vs := by
  induction vs generalizing start with
  | nil => rfl
  | cons v vs ih =>
    have first : s.items[start]? = some v := run 0 v rfl
    have rest := @ih (start + 1) fun i w at_i => by
      rw [Nat.add_assoc, Nat.add_comm 1]
      exact run (i + 1) w at_i
    rw [List.length_cons, List.range'_succ, entries, List.filterMap_cons, ← entries, rest,
      Cache.fetched, entry?, first, Option.bind_some]
    cases s.identify v <;> rfl

end Shelf

/-- The source brings the objects of the shelf, or none, and identifies them as it does. -/
structure Source.Shows [DecidableEq ι] (src : Source σ ι α) (s : Shelf ι α) (inv : σ → Prop) :
    Prop where
  truthful : src.Truthful (s.answers fun _ => False) inv
  identify : ∀ x, inv x → src.identify x = s.identify

theorem Shelf.shows [DecidableEq ι] {s : Shelf ι α} (distinct : s.Distinct) :
    source.Shows s fun t => t = s :=
  ⟨truthful _ distinct, fun _ same => congrArg identify same⟩

theorem Source.Shows.traced [DecidableEq ι] {src : Source σ ι α} {s : Shelf ι α} {inv : σ → Prop}
    (shows : src.Shows s inv) : src.traced.Shows s fun x => inv x.1 where
  truthful := ⟨fun x hx => shows.truthful.size x.1 hx,
    fun start length x hx => shows.truthful.range start length x.1 hx,
    fun id x hx => shows.truthful.byId id x.1 hx, fun x hx => shows.truthful.identify x.1 hx⟩
  identify x hx := shows.identify x.1 hx

theorem Source.Reliable.traced {src : Source σ ι α} {right : Answers ι α} {inv struck : σ → Prop}
    (reliable : src.Reliable right inv struck) :
    src.traced.Reliable right (fun x => inv x.1) fun x => struck x.1 where
  size x hx := reliable.size x.1 hx
  range start length n x hx := reliable.range start length n x.1 hx
  byId id x hx := reliable.byId id x.1 hx
  size_lt := reliable.size_lt
  unique x hx := reliable.unique x.1 hx

namespace Cache

/-- The most recently used entries are those for these positions, in this order. -/
def Leads (c : Cache ι α) (s : Shelf ι α) (positions : List Nat) : Prop :=
  (c.table.entries.take positions.length).map some = positions.map s.entry?

variable [DecidableEq ι] {c : Cache ι α} {s : Shelf ι α} {sizing : Sizing}

omit [DecidableEq ι] in
theorem leads_of_entries (identified : s.Identified) {ps : List Nat}
    (inside : ∀ p ∈ ps, p < s.size) {back : List (Entry ι α)}
    (split : c.table.entries = s.entries ps ++ back) : c.Leads s ps := by
  rw [Leads, split, ← identified.length_entries inside, List.take_left,
    identified.map_entries inside]

theorem Coherent.stocked (coherent : c.Coherent s) (reachable : Reachable sizing c) :
    c.Stocked (s.answers fun _ => False) where
  table := reachable.stocked.1.table
  fits := reachable.stocked.1.fits
  entries e mem := ⟨Shelf.answers_nothing_named.2 (coherent.named e mem).symm,
    fun p at_e => Shelf.answers_nothing_item.2 (coherent.items e mem p at_e)⟩
  size n known := Shelf.answers_nothing_size.2 (coherent.size n known)

/-- What is cached for a position is what the shelf has there. -/
theorem Stocked.entry?_eq (stocked : c.Stocked (s.answers fun _ => False)) {p : Nat}
    {e : Entry ι α} (found : c.table.entryAt? p = some e) : s.entry? p = some e := by
  obtain ⟨mem, at_e⟩ := stocked.table.entryAt?_eq_some_iff.1 found
  obtain ⟨named, item⟩ := stocked.entries e mem
  have byId := Shelf.answers_nothing_named.1 named
  exact Shelf.entry?_eq_some_iff.2
    ⟨Shelf.answers_nothing_item.1 (item p at_e), (Shelf.exists_of_byId? byId.symm).1, at_e⟩

/-- The cached run at the start of a range consists of the entries for its positions. -/
theorem Stocked.runEntries_eq (stocked : c.Stocked (s.answers fun _ => False))
    (start length : Nat) : c.runEntries start (c.runLength start length) =
      s.entries (List.range' start (c.runLength start length)) := by
  refine List.filterMap_congr fun p mem => ?_
  obtain ⟨from_start, lt⟩ := List.mem_range'_1.1 mem
  obtain ⟨e, found⟩ :=
    stocked.table.covers_eq_true_iff.1 (coversPosition_of_lt_runLength from_start lt)
  rw [found, stocked.entry?_eq found]

end Cache

end ReadThrough
