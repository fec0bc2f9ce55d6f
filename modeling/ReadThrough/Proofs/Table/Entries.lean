import ReadThrough.Proofs.Table.Holds

/-!
# Tables as lists of entries

A well-formed table is known by `Table.entries`, its entries from the most to the
least recently used: no two of them share an identity or a position, and each
operation is an edit of this list.  Handles do not show in it.

* `WellFormed.entries_insert`, `entries_promote`, `entries_remove`, `evict` are the
  edits.
* `WellFormed.atPosition?_eq_none_iff` and its companions say what the indexes
  find.
-/

namespace ReadThrough

variable {ι α : Type} [DecidableEq ι]

namespace Table

/-- List and indexes agree. -/
def WellFormed (t : Table ι α) : Prop := t.Holds t.order.entries

theorem Holds.wellFormed {t : Table ι α} {es : List (Handle × Entry ι α)} (holds : t.Holds es) :
    t.WellFormed := by
  rw [WellFormed, holds.order.entries_eq]
  exact holds

theorem wellFormed_empty : (∅ : Table ι α).WellFormed := holds_empty.wellFormed

@[simp] theorem entries_empty : (∅ : Table ι α).entries = [] := holds_empty.entries_eq

theorem removeId_absent {t : Table ι α} {id : ι} (absent : (t.removeId id).1 = none) :
    (t.removeId id).2 = t := by
  unfold Table.removeId at absent ⊢
  split at absent
  · rw [remove_of_dead ((fst_remove t _).symm.trans absent)]
  · rfl

namespace WellFormed

variable {t : Table ι α} {h : Handle} {e e' : Entry ι α}

theorem size_eq (wf : t.WellFormed) : t.size = t.entries.length := by
  rw [Holds.size_eq wf, Holds.entries_eq wf, List.length_map]

theorem mem_entries_iff (wf : t.WellFormed) : e ∈ t.entries ↔ ∃ h, t.entry? h = some e := by
  simp only [Holds.entries_eq wf, Holds.entry?_eq_some_iff wf, List.mem_map, Prod.exists,
    exists_eq_right]

theorem mem_of_entry? (wf : t.WellFormed) (here : t.entry? h = some e) : e ∈ t.entries :=
  wf.mem_entries_iff.2 ⟨h, here⟩

/-- An identity occurs once. -/
theorem eq_of_id (wf : t.WellFormed) (he : e ∈ t.entries) (he' : e' ∈ t.entries)
    (same : e.id = e'.id) : e = e' := by
  obtain ⟨h, here⟩ := wf.mem_entries_iff.1 he
  obtain ⟨h', here'⟩ := wf.mem_entries_iff.1 he'
  rw [Holds.entry?_eq_some_iff wf] at here here'
  exact (Holds.eq_of_id wf here here' same).2

theorem nodup_ids (wf : t.WellFormed) : (t.entries.map (·.id)).Nodup := by
  have nodup := Holds.nodup_ids wf
  rwa [Holds.entries_eq wf, List.map_map]

/-! ## Lookups -/

theorem exists_of_atPosition? (wf : t.WellFormed) {p : Nat} (found : t.atPosition? p = some h) :
    ∃ e, t.entry? h = some e ∧ e.position? = some p := by
  obtain ⟨e, mem, at_e⟩ := (Holds.positions wf p h).1 found
  exact ⟨e, (Holds.entry?_eq_some_iff wf).2 mem, at_e⟩

theorem exists_atPosition? (wf : t.WellFormed) (mem : e ∈ t.entries) {p : Nat}
    (at_e : e.position? = some p) : ∃ h, t.atPosition? p = some h ∧ t.entry? h = some e := by
  obtain ⟨h, here⟩ := wf.mem_entries_iff.1 mem
  exact ⟨h, (Holds.positions wf p h).2 ⟨e, (Holds.entry?_eq_some_iff wf).1 here, at_e⟩, here⟩

theorem atPosition?_eq_none_iff (wf : t.WellFormed) {p : Nat} :
    t.atPosition? p = none ↔ ∀ e ∈ t.entries, e.position? ≠ some p := by
  constructor
  · intro absent e mem at_e
    obtain ⟨h, found, -⟩ := wf.exists_atPosition? mem at_e
    rw [absent] at found
    cases found
  · intro free
    cases found : t.atPosition? p with
    | none => rfl
    | some h =>
      obtain ⟨e, here, at_e⟩ := wf.exists_of_atPosition? found
      exact absurd at_e (free e (wf.mem_of_entry? here))

theorem exists_of_ofId? (wf : t.WellFormed) {id : ι} (found : t.ofId? id = some h) :
    ∃ e, t.entry? h = some e ∧ e.id = id := by
  obtain ⟨e, mem, same⟩ := (Holds.ids wf id h).1 found
  exact ⟨e, (Holds.entry?_eq_some_iff wf).2 mem, same⟩

theorem ofId?_eq_none_iff (wf : t.WellFormed) {id : ι} :
    t.ofId? id = none ↔ ∀ e ∈ t.entries, e.id ≠ id := by
  constructor
  · intro absent e mem same
    obtain ⟨h, here⟩ := wf.mem_entries_iff.1 mem
    have found := (Holds.ids wf id h).2 ⟨e, (Holds.entry?_eq_some_iff wf).1 here, same⟩
    exact absurd (absent.symm.trans found) (by simp)
  · intro free
    cases found : t.ofId? id with
    | none => rfl
    | some h =>
      obtain ⟨e, here, same⟩ := wf.exists_of_ofId? found
      exact absurd same (free e (wf.mem_of_entry? here))

/-! ## Edits -/

theorem promote (wf : t.WellFormed) (here : t.entry? h = some e) : (t.promote h).WellFormed :=
  (Holds.promote wf ((Holds.entry?_eq_some_iff wf).1 here)).wellFormed

theorem entries_promote (wf : t.WellFormed) (here : t.entry? h = some e) :
    (t.promote h).entries = e :: t.entries.filter fun x => x.id ≠ e.id := by
  have mem := (Holds.entry?_eq_some_iff wf).1 here
  rw [(Holds.promote wf mem).entries_eq, Holds.filter_handle wf mem, Holds.entries_eq wf,
    List.map_cons, List.filter_map]
  rfl

theorem entry?_promote (wf : t.WellFormed) (here : t.entry? h = some e) :
    Table.entry? (t.promote h) h = some e := by
  have mem := (Holds.entry?_eq_some_iff wf).1 here
  exact (Holds.promote wf mem).entry?_eq_some_iff.2 List.mem_cons_self

theorem insert (wf : t.WellFormed) (id : ι) (value : α) (position? : Option Nat) :
    (t.insert id value position?).2.WellFormed :=
  (Holds.insert wf id value position?).wellFormed

theorem entries_insert (wf : t.WellFormed) (id : ι) (value : α) (position? : Option Nat) :
    (t.insert id value position?).2.entries =
      ⟨value, id, position?.or ((t.entries.find? fun x => x.id = id).bind fun x => x.position?)⟩ ::
        (t.entries.filter fun x => x.id ≠ id).map fun x => x.vacate position? := by
  rw [(Holds.insert wf id value position?).entries_eq, Holds.entries_eq wf, List.map_cons,
    List.filter_map, List.find?_map, List.map_map, List.map_map, Option.bind_map]
  rfl

theorem remove (wf : t.WellFormed) (here : t.entry? h = some e) :
    (t.remove h).2.WellFormed :=
  (Holds.remove wf ((Holds.entry?_eq_some_iff wf).1 here)).2.wellFormed

theorem entries_remove (wf : t.WellFormed) (here : t.entry? h = some e) :
    (t.remove h).1 = some e ∧ (t.remove h).2.entries = t.entries.filter fun x => x.id ≠ e.id := by
  have mem := (Holds.entry?_eq_some_iff wf).1 here
  obtain ⟨removed, rest⟩ := Holds.remove wf mem
  refine ⟨removed, ?_⟩
  rw [rest.entries_eq, Holds.filter_handle wf mem, Holds.entries_eq wf, List.filter_map]
  rfl

/-- Evicting takes the last entry. -/
theorem evict (wf : t.WellFormed) {xs : List (Entry ι α)} (last : t.entries = xs ++ [e]) :
    t.evict.1 = some e ∧ t.evict.2.WellFormed ∧ t.evict.2.entries = xs := by
  rw [Holds.entries_eq wf] at last
  obtain ⟨ys, zs, split, rfl, end_⟩ := List.map_eq_append_iff.1 last
  obtain ⟨⟨h, e'⟩, none, rfl, same, empty⟩ := List.map_eq_cons_iff.1 end_
  cases List.map_eq_nil_iff.1 empty
  cases same
  have holds : t.Holds (ys ++ [(h, e')]) := split ▸ wf
  have oldest : t.order.oldest? = some h := by
    rw [holds.order.oldest, List.getLast?_concat]
    rfl
  obtain ⟨removed, rest⟩ := holds.remove (h := h) (e := e') (by simp)
  rw [Recency.filter_key_ne Prod.fst holds.order.nodup, List.append_nil] at rest
  simp only [Table.evict, oldest]
  exact ⟨removed, rest.wellFormed, rest.entries_eq⟩

theorem removeId (wf : t.WellFormed) (id : ι) : (t.removeId id).2.WellFormed := by
  unfold Table.removeId
  split
  · rename_i h found
    obtain ⟨e, here, -⟩ := wf.exists_of_ofId? found
    exact wf.remove here
  · exact wf

theorem entries_removeId (wf : t.WellFormed) (id : ι) :
    (t.removeId id).2.entries = t.entries.filter fun x => x.id ≠ id := by
  unfold Table.removeId
  split
  · rename_i h found
    obtain ⟨e, here, rfl⟩ := wf.exists_of_ofId? found
    exact (wf.entries_remove here).2
  · rename_i absent
    exact (List.filter_eq_self.2 fun e mem =>
      decide_eq_true (wf.ofId?_eq_none_iff.1 absent e mem)).symm

/-! ### Sizes -/

theorem size_insert (t : Table ι α) (id : ι) (value : α) (position? : Option Nat) :
    (t.insert id value position?).2.size = t.size + if (t.ofId? id).isSome then 0 else 1 := by
  unfold Table.insert
  cases found : t.ofId? id with
  | some h => cases position? <;> rfl
  | none =>
    have fresh : (t.ids.erase id).pairs = t.ids.pairs := by
      refine List.filter_eq_self.2 fun p mem => ?_
      rw [Bool.not_eq_true', decide_eq_false_iff_not]
      intro same
      have bound := (Index.mem_pairs_iff t.ids p.1 p.2).1 mem
      rw [same] at bound
      exact absurd (bound.symm.trans found) (by simp)
    have enrolled : ∀ h, (t.ids.insert id h).size = t.size + 1 := fun h =>
      congrArg (·.length + 1) fresh
    cases position? <;> exact enrolled _

theorem size_remove (wf : t.WellFormed) (here : t.entry? h = some e) :
    (t.remove h).2.size + 1 = t.size := by
  have promoted := (wf.promote here).size_eq
  rw [wf.entries_promote here, List.length_cons, ← (wf.entries_remove here).2,
    ← (wf.remove here).size_eq] at promoted
  exact promoted.symm

theorem size_removeAll (wf : t.WellFormed) (hs : List Handle) :
    (t.removeAll hs).1 + (t.removeAll hs).2.size = t.size := by
  induction hs generalizing t with
  | nil => exact Nat.zero_add _
  | cons h hs ih =>
    unfold Table.removeAll
    split
    · rename_i e t' removed
      have here : t.entry? h = some e := (fst_remove t h).symm.trans (congrArg Prod.fst removed)
      have one := wf.size_remove here
      have wf' := wf.remove here
      rw [removed] at one wf'
      have rest := ih wf'
      dsimp only at one rest ⊢
      omega
    · rename_i t' absent
      have dead : t.entry? h = none := (fst_remove t h).symm.trans (congrArg Prod.fst absent)
      rw [remove_of_dead dead] at absent
      cases absent
      exact ih wf

end WellFormed

end Table

end ReadThrough
