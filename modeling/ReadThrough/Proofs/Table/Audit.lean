import ReadThrough.Proofs.Table.Entries

/-!
# What an audit finds

The audit of a table goes through the list and through the position index.  It does not go through
the identity index: that it holds nothing but what the list asks for shows in its size.

* `Table.audit_eq_ok_iff_checks` is what the audit looks at.
* `Index.mem_of_size_le`: as many keys as are bound leave no room for others.
* `Table.audit_eq_ok_iff`: the audit passes the tables whose indexes lead from the keys of each
  entry to it, and nowhere else.
* `WellFormed.audit_eq`: so it passes the well-formed ones.
-/

namespace ReadThrough

/-- Where as many keys are known to be bound as there are, no other key is. -/
theorem Index.mem_of_size_le {κ ν : Type} [DecidableEq κ] {m : Index κ ν} {ks : List κ}
    (nodup : ks.Nodup) (bound : ∀ k ∈ ks, ∃ v, m.get? k = some v) (size : m.size ≤ ks.length)
    {k : κ} {v : ν} (found : m.get? k = some v) : k ∈ ks := by
  have inside : ks.Subperm m.keys :=
    List.subperm_of_subset nodup fun k mem => (m.mem_keys_iff k).2 (bound k mem)
  have all : ks.Perm m.keys :=
    inside.perm_of_length_le (Nat.le_trans (Nat.le_of_eq (List.length_map _)) size)
  exact all.mem_iff.2 ((m.mem_keys_iff k).2 ⟨v, found⟩)

namespace Table

variable {ι α : Type} [DecidableEq ι] {t : Table ι α}

/-! ## Checks -/

section

omit [DecidableEq ι]

theorem andThen_eq_ok_iff {x y : Except Violation Unit} :
    (do x; y) = .ok () ↔ x = .ok () ∧ y = .ok () := by
  cases x with
  | error v => exact ⟨fun eq => (by cases eq), fun both => (by cases both.1)⟩
  | ok _ => exact ⟨fun eq => ⟨rfl, eq⟩, And.right⟩

theorem forM_eq_ok_iff {β : Type} {check : β → Except Violation Unit} {xs : List β} :
    xs.forM check = .ok () ↔ ∀ x ∈ xs, check x = .ok () := by
  induction xs with
  | nil => exact iff_of_true rfl fun x mem => (by cases mem)
  | cons x xs ih =>
    rw [List.forall_mem_cons, ← ih]
    exact andThen_eq_ok_iff

theorem auditPosition_eq_ok_iff {p : Nat} {h : Handle} :
    t.auditPosition p h = .ok () ↔ ∃ e, t.order.get? h = some e ∧ e.position? = some p := by
  unfold auditPosition
  cases here : t.order.get? h with
  | none => simp
  | some e => by_cases at_e : e.position? = some p <;> simp [at_e]

end

theorem auditEntry_eq_ok_iff {h : Handle} {e : Entry ι α} :
    t.auditEntry h e = .ok () ↔
      t.ids.get? e.id = some h ∧ ∀ p, e.position? = some p → t.positions.get? p = some h := by
  unfold auditEntry
  by_cases found : t.ids.get? e.id = some h
  · cases at_e : e.position? with
    | none => simp [found]
    | some p => by_cases bound : t.positions.get? p = some h <;> simp [found, bound]
  · simp [found]

/-- The audit passes where list and identity index are of one size, the keys of each listed entry
lead to it, and each position leads to an entry that claims it. -/
theorem audit_eq_ok_iff_checks :
    t.audit = .ok () ↔ t.order.size = t.ids.size ∧
      (∀ h e, (h, e) ∈ t.order.entries → t.ids.get? e.id = some h ∧
        ∀ p, e.position? = some p → t.positions.get? p = some h) ∧
      ∀ p h, t.positions.get? p = some h →
        ∃ e, t.order.get? h = some e ∧ e.position? = some p := by
  by_cases sizes : t.order.size = t.ids.size
  · simp only [audit, sizes, ne_eq, not_true_eq_false, if_false, true_and]
    refine andThen_eq_ok_iff.trans (and_congr ?_ ?_)
    · simp only [forM_eq_ok_iff, Prod.forall, auditEntry_eq_ok_iff]
    · simp only [forM_eq_ok_iff, Prod.forall, auditPosition_eq_ok_iff, Index.mem_pairs_iff]
  · simp only [audit, sizes, ne_eq, not_false_eq_true, if_true, false_and, iff_false]
    exact fun eq => (by cases eq)

/-! ## Tables that pass -/

section

variable {es : List (Handle × Entry ι α)} (visits : t.order.Visits es)
include visits

/-- Where each listed identity leads to its own node, and no other key can be bound, the identity
index is exact. -/
theorem ids_of_checks (size : t.order.size = t.ids.size)
    (listed : ∀ h e, (h, e) ∈ es → t.ids.get? e.id = some h) :
    (es.map fun x => x.2.id).Nodup ∧
      ∀ id h, t.ids.get? id = some h ↔ ∃ e, (h, e) ∈ es ∧ e.id = id := by
  have nodup : (es.map fun x => x.2.id).Nodup := by
    refine List.Nodup.map_on (fun x hx y hy same => ?_) visits.follows.nodup.of_map
    have there := listed x.1 x.2 hx
    rw [same, listed y.1 y.2 hy] at there
    exact List.inj_on_of_nodup_map visits.follows.nodup hx hy (Option.some.inj there).symm
  have bound : ∀ id ∈ es.map fun x => x.2.id, ∃ h, t.ids.get? id = some h := fun id mem => by
    obtain ⟨x, hx, rfl⟩ := List.mem_map.1 mem
    exact ⟨x.1, listed x.1 x.2 hx⟩
  have room : t.ids.size ≤ (es.map fun x => x.2.id).length := by
    rw [List.length_map, ← visits.size]
    exact Nat.le_of_eq size.symm
  refine ⟨nodup, fun id h => ⟨fun found => ?_, ?_⟩⟩
  · obtain ⟨⟨k, e⟩, mem, rfl⟩ := List.mem_map.1 (Index.mem_of_size_le nodup bound room found)
    obtain rfl : k = h := Option.some.inj ((listed k e mem).symm.trans found)
    exact ⟨e, mem, rfl⟩
  · rintro ⟨e, mem, rfl⟩
    exact listed h e mem

omit [DecidableEq ι] in
/-- Where each listed position leads to its own node, and each position leads to an entry that
claims it, the position index is exact. -/
theorem positions_of_checks
    (listed : ∀ h e, (h, e) ∈ es → ∀ p, e.position? = some p → t.positions.get? p = some h)
    (claimed : ∀ p h, t.positions.get? p = some h →
      ∃ e, t.order.get? h = some e ∧ e.position? = some p) :
    (es.filterMap fun x => x.2.position?).Nodup ∧
      ∀ p h, t.positions.get? p = some h ↔ ∃ e, (h, e) ∈ es ∧ e.position? = some p := by
  refine ⟨nodup_filterMap_on visits.follows.nodup.of_map fun x hx y hy p at_x at_y => ?_,
    fun p h => ⟨fun found => ?_, ?_⟩⟩
  · have there := listed x.1 x.2 hx p at_x
    rw [listed y.1 y.2 hy p at_y] at there
    exact List.inj_on_of_nodup_map visits.follows.nodup hx hy (Option.some.inj there).symm
  · obtain ⟨e, here, at_e⟩ := claimed p h found
    exact ⟨e, visits.get?_eq_some_iff.1 here, at_e⟩
  · rintro ⟨e, mem, at_e⟩
    exact listed h e mem p at_e

end

/-- Where both indexes lead from the keys of each listed entry to it, and nowhere else, nothing is
found wrong. -/
theorem audit_eq_of_exact {es : List (Handle × Entry ι α)} (visits : t.order.Visits es)
    (nodup : (es.map fun x => x.2.id).Nodup)
    (ids : ∀ id h, t.ids.get? id = some h ↔ ∃ e, (h, e) ∈ es ∧ e.id = id)
    (positions : ∀ p h, t.positions.get? p = some h ↔ ∃ e, (h, e) ∈ es ∧ e.position? = some p) :
    t.audit = .ok () := by
  have bound : ∀ id, (∃ h, t.ids.get? id = some h) ↔ id ∈ es.map fun x => x.2.id := fun id => by
    simp only [ids, List.mem_map, Prod.exists]
  refine audit_eq_ok_iff_checks.2 ⟨?_, fun h e mem => ?_, fun p h found => ?_⟩
  · rw [visits.size, t.ids.size_eq_length nodup bound, List.length_map]
  · rw [visits.entries_eq] at mem
    exact ⟨(ids e.id h).2 ⟨e, mem, rfl⟩, fun p at_e => (positions p h).2 ⟨e, mem, at_e⟩⟩
  · obtain ⟨e, mem, at_e⟩ := (positions p h).1 found
    exact ⟨e, visits.get?_eq_some_iff.2 mem, at_e⟩

/-- **The audit passes the tables whose indexes are exact, and no others.**  Let the list of a
table be in order, and its indexes be any two maps.  The audit finds nothing wrong if and only if
no identity occurs twice and the identity index leads from those that occur to their own nodes, no
position occurs twice and the position index leads from those that occur to their own nodes, and
neither index leads anywhere else. -/
theorem audit_eq_ok_iff {es : List (Handle × Entry ι α)} (visits : t.order.Visits es) :
    t.audit = .ok () ↔
      ((es.map fun x => x.2.id).Nodup ∧
        ∀ id h, t.ids.get? id = some h ↔ ∃ e, (h, e) ∈ es ∧ e.id = id) ∧
      (es.filterMap fun x => x.2.position?).Nodup ∧
        ∀ p h, t.positions.get? p = some h ↔ ∃ e, (h, e) ∈ es ∧ e.position? = some p := by
  constructor
  · rw [audit_eq_ok_iff_checks, visits.entries_eq]
    rintro ⟨size, listed, claimed⟩
    exact ⟨ids_of_checks visits size fun h e mem => (listed h e mem).1,
      positions_of_checks visits (fun h e mem => (listed h e mem).2) claimed⟩
  · rintro ⟨⟨nodup, ids⟩, -, positions⟩
    exact audit_eq_of_exact visits nodup ids positions

/-- Two entries that share an identity do not pass, although the sizes agree: a stale identity
makes up for the one that is missing. -/
theorem audit_eq_ok_iff_stale :
    let order := ((∅ : Recency (Entry Nat Nat)).push ⟨50, 5, none⟩).2.push ⟨51, 5, some 0⟩ |>.2
    let t : Table Nat Nat := ⟨order, ((∅ : Index Nat Handle).insert 5 1).insert 6 0,
      (∅ : Index Nat Handle).insert 0 1⟩
    t.order.size = t.ids.size ∧ t.audit ≠ .ok () := by
  intro order t
  have first := (Recency.lists_empty.push (⟨50, 5, none⟩ : Entry Nat Nat)).2
  have lists := (first.push ⟨51, 5, some 0⟩).2
  have visits : t.order.Visits _ := lists.visits
  refine ⟨rfl, fun passes => ?_⟩
  exact absurd ((audit_eq_ok_iff visits).1 passes).1.1 (by simp)

/-- The audit finds nothing wrong with a well-formed table. -/
theorem WellFormed.audit_eq (wf : t.WellFormed) : t.audit = .ok () :=
  audit_eq_of_exact (Holds.order wf).visits (Holds.nodup_ids wf) (Holds.ids wf)
    (Holds.positions wf)

end Table

end ReadThrough
