import ReadThrough.Proofs.Table.Entries

/-!
# Ranges of positions

To remove a range of positions, a table collects handles, position by position or from the index,
and then removes what they lead to, one handle after the other.

* `Table.Clears` says what is left of a table without the entries of a range, and how many they
  were.
* `WellFormed.clears_removeAll`: that is what comes of the handles that stand in the range, in
  whatever order they were collected.
* `WellFormed.clears_range`: so neither the way of collecting them shows, nor the order in which
  the index is gone through.
-/

namespace ReadThrough

variable {ι α : Type}

/-- The entry is known to stand from `first` to `last`. -/
def Entry.standsWithin {ι α : Type} (first last : Nat) (e : Entry ι α) : Bool :=
  e.position?.any fun p => first ≤ p && p ≤ last

theorem Entry.standsWithin_eq_true_iff {first last : Nat} {e : Entry ι α} :
    e.standsWithin first last = true ↔ ∃ p, e.position? = some p ∧ first ≤ p ∧ p ≤ last := by
  simp only [standsWithin, Option.any_eq_true, Bool.and_eq_true, decide_eq_true_eq]

namespace Table

/-! ## Collecting handles -/

section

variable {t : Table ι α} {h : Handle}

theorem mem_walkRange_iff {first last : Nat} :
    h ∈ t.walkRange first last ↔ ∃ p, first ≤ p ∧ p ≤ last ∧ t.positions.get? p = some h := by
  simp only [walkRange, List.mem_filterMap, List.mem_range'_1, atPosition?]
  refine exists_congr fun p => ?_
  constructor
  · rintro ⟨⟨le, lt⟩, found⟩
    exact ⟨le, by omega, found⟩
  · rintro ⟨le, le', found⟩
    exact ⟨⟨le, by omega⟩, found⟩

theorem mem_scanRange_iff {first last : Nat} :
    h ∈ t.scanRange first last ↔ ∃ p, first ≤ p ∧ p ≤ last ∧ t.positions.get? p = some h := by
  simp only [scanRange, List.mem_map, List.mem_filter, Prod.exists, Index.mem_pairs_iff,
    Bool.and_eq_true, decide_eq_true_eq]
  constructor
  · rintro ⟨p, k, ⟨found, le, le'⟩, eq⟩
    exact ⟨p, le, le', eq ▸ found⟩
  · rintro ⟨p, le, le', found⟩
    exact ⟨p, h, ⟨found, le, le'⟩, rfl⟩

end

variable [DecidableEq ι] {t : Table ι α} {h : Handle} {first last : Nat}

namespace WellFormed

/-- Different positions lead to different entries. -/
theorem positions_injective (wf : t.WellFormed) {p q : Nat} (hp : t.positions.get? p = some h)
    (hq : t.positions.get? q = some h) : p = q := by
  obtain ⟨e, mem, at_e⟩ := (Holds.positions wf p h).1 hp
  obtain ⟨e', mem', at_e'⟩ := (Holds.positions wf q h).1 hq
  rw [(Holds.order wf).value_unique mem' mem, at_e] at at_e'
  exact Option.some.inj at_e'

theorem nodup_walkRange (wf : t.WellFormed) (first last : Nat) :
    (t.walkRange first last).Nodup := by
  refine List.Nodup.filterMap ?_ (List.nodup_range' 1 Nat.one_pos)
  intro p q h hp hq
  exact wf.positions_injective (Option.mem_def.1 hp) (Option.mem_def.1 hq)

theorem nodup_scanRange (wf : t.WellFormed) (first last : Nat) :
    (t.scanRange first last).Nodup := by
  refine List.Nodup.map_on ?_ (t.positions.nodup.of_map.filter _)
  intro x hx y hy same
  have hx := (Index.mem_pairs_iff _ _ _).1 (List.mem_filter.1 hx).1
  have hy := (Index.mem_pairs_iff _ _ _).1 (List.mem_filter.1 hy).1
  exact Prod.ext (wf.positions_injective hx (same ▸ hy)) same

/-- The two ways of collecting handles come to the same ones. -/
theorem walkRange_perm (wf : t.WellFormed) (first last : Nat) :
    (t.walkRange first last).Perm (t.scanRange first last) :=
  (List.perm_ext_iff_of_nodup (wf.nodup_walkRange first last) (wf.nodup_scanRange first last)).2
    fun _ => mem_walkRange_iff.trans mem_scanRange_iff.symm

end WellFormed

/-! ## Removing what they lead to -/

/-- `r` is how many entries of `t` stand from `first` to `last`, and `t` without them: the others
stay in their order, with their handles, and no key leads to what has left. -/
structure Clears (t : Table ι α) (first last : Nat) (r : Nat × Table ι α) : Prop where
  wellFormed : r.2.WellFormed
  count : r.1 = t.entries.countP (Entry.standsWithin first last)
  entries : r.2.order.entries = t.order.entries.filter fun x => !x.2.standsWithin first last
  entry? : ∀ h, Table.entry? r.2 h = (t.entry? h).filter fun e => !e.standsWithin first last
  ofId? : ∀ id, r.2.ofId? id = (t.ofId? id).filter fun h => (Table.entry? r.2 h).isSome
  atPosition? : ∀ p, r.2.atPosition? p =
    if first ≤ p ∧ p ≤ last then none else t.atPosition? p

namespace WellFormed

/-- The list decides what is found. -/
theorem clears_of_entries (wf : t.WellFormed) {r : Nat × Table ι α} (wf' : r.2.WellFormed)
    (count : r.1 = t.entries.countP (Entry.standsWithin first last))
    (entries : r.2.order.entries =
      t.order.entries.filter fun x => !x.2.standsWithin first last) :
    t.Clears first last r := by
  have found (h : Handle) (e : Entry ι α) :
      Table.entry? r.2 h = some e ↔ t.entry? h = some e ∧ e.standsWithin first last = false := by
    rw [Holds.entry?_eq_some_iff wf', Holds.entry?_eq_some_iff wf, entries, List.mem_filter,
      Bool.not_eq_true']
  refine ⟨wf', count, entries, fun h => ?_, fun id => ?_, fun p => ?_⟩
  · refine Option.ext fun e => ?_
    rw [found, Option.filter_eq_some_iff, Bool.not_eq_true']
  · refine Option.ext fun h => ?_
    rw [Option.filter_eq_some_iff, Holds.ofId?_eq_some_iff wf', Holds.ofId?_eq_some_iff wf,
      Option.isSome_iff_exists]
    constructor
    · rintro ⟨e, here, same⟩
      exact ⟨⟨e, ((found h e).1 here).1, same⟩, e, here⟩
    · rintro ⟨⟨e, there, same⟩, e', here⟩
      obtain rfl : e = e' := Option.some.inj (there.symm.trans ((found h e').1 here).1)
      exact ⟨e, here, same⟩
  · refine Option.ext fun h => ?_
    rw [Holds.atPosition?_eq_some_iff wf']
    split
    · rename_i within
      simp only [found, reduceCtorEq, iff_false, not_exists, not_and, and_imp]
      intro e _ out at_e
      rw [Entry.standsWithin_eq_true_iff.2 ⟨p, at_e, within⟩] at out
      cases out
    · rename_i out
      rw [Holds.atPosition?_eq_some_iff wf]
      refine exists_congr fun e => and_congr_left fun at_e => ?_
      rw [found]
      refine and_iff_left (Bool.eq_false_iff.2 fun within => ?_)
      obtain ⟨q, at_q, bounds⟩ := Entry.standsWithin_eq_true_iff.1 within
      rw [at_e, Option.some.injEq] at at_q
      exact out (at_q ▸ bounds)

/-- Whoever removes what the positions of a range lead to clears the range. -/
theorem clears_removeAll (wf : t.WellFormed) {hs : List Handle} (nodup : hs.Nodup)
    (leads : ∀ h, h ∈ hs ↔ ∃ p, first ≤ p ∧ p ≤ last ∧ t.positions.get? p = some h) :
    t.Clears first last (t.removeAll hs) := by
  have live : ∀ k ∈ hs, k ∈ t.order.entries.map Prod.fst := fun k mem => by
    obtain ⟨p, -, -, found⟩ := (leads k).1 mem
    obtain ⟨e, mem', -⟩ := (Holds.positions wf p k).1 found
    exact List.mem_map_of_mem mem'
  have within : ∀ x ∈ t.order.entries, x.1 ∈ hs ↔ x.2.standsWithin first last = true := by
    intro x mem
    rw [leads, Entry.standsWithin_eq_true_iff]
    refine exists_congr fun p => ?_
    rw [Holds.positions wf]
    constructor
    · rintro ⟨le, le', e, mem', at_e⟩
      exact ⟨(Holds.order wf).value_unique mem mem' ▸ at_e, le, le'⟩
    · rintro ⟨at_x, le, le'⟩
      exact ⟨le, le', x.2, mem, at_x⟩
  have rest := (Holds.removeAll wf nodup live).2
  rw [List.filter_congr (q := fun x => !x.2.standsWithin first last) fun x mem => by
    simp [within x mem]] at rest
  refine wf.clears_of_entries rest.wellFormed ?_ rest.order.entries_eq
  -- what was removed and what is left make up the table
  have removed := wf.size_removeAll hs
  have left : (t.removeAll hs).2.size = t.entries.countP fun e => ¬e.standsWithin first last := by
    rw [rest.size_eq, Holds.entries_eq wf, List.countP_map, List.countP_eq_length_filter]
    refine congrArg List.length (List.filter_congr fun x _ => ?_)
    cases within : x.2.standsWithin first last <;> simp [within]
  have parts := List.length_eq_countP_add_countP (l := t.entries) (Entry.standsWithin first last)
  rw [left, wf.size_eq, parts] at removed
  exact Nat.add_right_cancel removed

/-- Where an index leads, not how it is written, decides what a table is. -/
theorem congr_positions (wf : t.WellFormed) {m : Index Nat Handle}
    (same : ∀ p, m.get? p = t.positions.get? p) :
    ({ t with positions := m } : Table ι α).WellFormed := by
  have holds : t.Holds t.order.entries := wf
  refine ⟨holds.order, holds.ids, fun p h => ?_⟩
  rw [same]
  exact holds.positions p h

/-- The entries known to stand in a range leave, whichever way they are found. -/
theorem clears_removePositions (wf : t.WellFormed) (first last : Nat) :
    t.Clears first last (t.removePositions first last) ∧
      t.Clears first last (t.removeAll (t.walkRange first last)) ∧
      t.Clears first last (t.removeAll (t.scanRange first last)) := by
  have walk := wf.clears_removeAll (wf.nodup_walkRange first last) fun h => mem_walkRange_iff
  have scan := wf.clears_removeAll (wf.nodup_scanRange first last) fun h => mem_scanRange_iff
  refine ⟨?_, walk, scan⟩
  unfold Table.removePositions
  split
  · exact walk
  · exact scan

theorem removePositions (wf : t.WellFormed) (first last : Nat) :
    (t.removePositions first last).2.WellFormed ∧
      (t.removePositions first last).2.entries =
        t.entries.filter fun e => !e.standsWithin first last := by
  obtain ⟨clears, -⟩ := wf.clears_removePositions first last
  refine ⟨clears.wellFormed, ?_⟩
  rw [Holds.entries_eq clears.wellFormed, clears.entries, Holds.entries_eq wf, List.filter_map]
  rfl

end WellFormed

/-- How the position index is written does not matter to what is cleared. -/
theorem Clears.congr_positions {m : Index Nat Handle} {r : Nat × Table ι α}
    (clears : ({ t with positions := m } : Table ι α).Clears first last r)
    (same : ∀ p, m.get? p = t.positions.get? p) : t.Clears first last r :=
  { clears with
    atPosition? := fun p => by
      rw [clears.atPosition? p]
      exact congrArg (ite _ none) (same p) }

/-- **How the entries of a range are found does not show.**  Let the position index of a
well-formed table be gone through in any order, `m`.  To look at each position of a range and to
go through the index come to the same handles.  Whichever way they are found, exactly the entries
that stand in the range leave and are counted; the others stay in their order, under the handles,
identities and positions that they had, and the table is well-formed again. -/
theorem WellFormed.clears_range (wf : t.WellFormed) (first last : Nat) {m : Index Nat Handle}
    (same : m.pairs.Perm t.positions.pairs) :
    let s : Table ι α := { t with positions := m }
    (s.walkRange first last).Perm (s.scanRange first last) ∧
      t.Clears first last (s.removePositions first last) ∧
      t.Clears first last (s.removeAll (s.walkRange first last)) ∧
      t.Clears first last (s.removeAll (s.scanRange first last)) := by
  intro s
  have leads : ∀ p, m.get? p = t.positions.get? p := Index.get?_eq_of_perm same
  have wf' : s.WellFormed := wf.congr_positions leads
  obtain ⟨either, walk, scan⟩ := wf'.clears_removePositions first last
  exact ⟨wf'.walkRange_perm first last, either.congr_positions leads, walk.congr_positions leads,
    scan.congr_positions leads⟩

/-- A range without end takes out what stands late enough, however long it is to go through. -/
theorem WellFormed.clears_range_endless :
    let t : Table Nat Nat :=
      (((∅ : Table Nat Nat).insert 5 50 (some 2)).2.insert 6 60 none).2.insert 7 70 (some 4) |>.2
    let s : Table Nat Nat := { t with
      positions := ⟨t.positions.pairs.reverse,
        List.map_reverse ▸ List.nodup_reverse.2 t.positions.nodup⟩ }
    (s.removePositions 3 (wordLimit - 1)).1 = 1 ∧
      (s.removePositions 3 (wordLimit - 1)).2.order.entries =
        [(1, ⟨60, 6, none⟩), (0, ⟨50, 5, some 2⟩)] := by
  intro t s
  have wf : t.WellFormed :=
    ((wellFormed_empty.insert 5 50 (some 2)).insert 6 60 none).insert 7 70 (some 4)
  obtain ⟨-, clears, -, -⟩ :=
    WellFormed.clears_range wf 3 (wordLimit - 1) (m := s.positions) (List.reverse_perm _)
  refine ⟨clears.count.trans (by decide), clears.entries.trans (by decide)⟩

end Table

end ReadThrough
