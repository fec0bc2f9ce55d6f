import ReadThrough.Proofs.Recency.Refinement
import ReadThrough.Proofs.Table.Catalog
import ReadThrough.Proofs.Table.Entries

/-!
# Tables are catalogs

Whatever is done with a table, it gives what the plain list of its entries would give, and finds
under each key what a search through the list would find.

* `Table.Mirrors t c`: the table `t` stands for the catalog `c`.
* `Mirrors.step` keeps it, one operation at a time, with equal replies; `Mirrors.after` is a run
  of operations.
* `Mirrors.ofId?_step` and `Mirrors.entry?_step_of_frees`: how long a handle leads to the entry of
  an identity; `Mirrors.exists_insert` is where a handle that leads to an entry comes from.
* `Table.refines_catalog` is the refinement from the empty table on.
-/

namespace ReadThrough.Table

variable {ι α : Type}

/-! ## Slots -/

section

@[simp] theorem free_bind (t : Table ι α) (h : Handle) (p : Nat) :
    (t.bind h p).order.free = t.order.free := by
  unfold Table.bind
  dsimp only
  split
  · split <;> rfl
  · rfl

@[simp] theorem size_slots_bind (t : Table ι α) (h : Handle) (p : Nat) :
    (t.bind h p).order.slots.size = t.order.slots.size := by
  unfold Table.bind
  dsimp only
  split
  · split
    · exact Recency.size_slots_modify _ _ _
    · rfl
  · rfl

@[simp] theorem free_refresh (t : Table ι α) (h : Handle) (value : α) (position? : Option Nat) :
    (t.refresh h value position?).order.free = t.order.free :=
  Recency.free_promote _ h

@[simp] theorem size_slots_refresh (t : Table ι α) (h : Handle) (value : α)
    (position? : Option Nat) :
    (t.refresh h value position?).order.slots.size = t.order.slots.size :=
  (Recency.size_slots_promote _ h).trans (Recency.size_slots_modify _ h _)

variable [DecidableEq ι] {t : Table ι α} {id : ι} {h : Handle}

/-- An identity that is there keeps its handle, and no slot changes hands. -/
theorem insert_of_known (found : t.ofId? id = some h) (value : α) (position? : Option Nat) :
    (t.insert id value position?).1 = h ∧
      (t.insert id value position?).2.order.free = t.order.free ∧
      (t.insert id value position?).2.order.slots.size = t.order.slots.size := by
  simp only [Table.insert, found]
  cases position? <;> simp

/-- An identity that is not there gets the next slot. -/
theorem insert_of_new (absent : t.ofId? id = none) (value : α) (position? : Option Nat) :
    (t.insert id value position?).1 = (t.order.push ⟨value, id, position?⟩).1 ∧
      (t.insert id value position?).2.order.free =
        (t.order.push ⟨value, id, position?⟩).2.free ∧
      (t.insert id value position?).2.order.slots.size =
        (t.order.push ⟨value, id, position?⟩).2.slots.size := by
  simp only [Table.insert, absent, enroll]
  cases position? <;> simp

end

variable [DecidableEq ι]

/-! ## Simulation -/

/-- The table stands for the catalog. -/
structure Mirrors (t : Table ι α) (c : Catalog ι α) : Prop where
  holds : t.Holds c.entries
  free : t.order.free = c.freed
  slots : t.order.slots.size = c.slots

theorem mirrors_empty : (∅ : Table ι α).Mirrors ∅ where
  holds := holds_empty
  free := rfl
  slots := rfl

namespace Mirrors

variable {t : Table ι α} {c : Catalog ι α} {id : ι} {h : Handle} {e : Entry ι α}

theorem order (mirrors : t.Mirrors c) : t.order.Mirrors c :=
  ⟨mirrors.holds.order, mirrors.free, mirrors.slots⟩

theorem oldest?_eq (mirrors : t.Mirrors c) : t.order.oldest? = c.oldest? :=
  mirrors.holds.order.oldest

theorem entry?_eq (mirrors : t.Mirrors c) (h : Handle) : t.entry? h = c.value? h :=
  mirrors.order.get?_eq h

theorem ofId?_eq (mirrors : t.Mirrors c) (id : ι) : t.ofId? id = c.ofId? id :=
  mirrors.holds.ofId?_eq id

theorem atPosition?_eq (mirrors : t.Mirrors c) (p : Nat) : t.atPosition? p = c.atPosition? p :=
  mirrors.holds.atPosition?_eq p

theorem isEmpty_eq (mirrors : t.Mirrors c) : t.isEmpty = c.entries.isEmpty := by
  rw [isEmpty, mirrors.holds.size_eq]
  cases c.entries <;> rfl

/-! ### Writing -/

theorem insert (mirrors : t.Mirrors c) (id : ι) (value : α) (position? : Option Nat) :
    (t.insert id value position?).1 = (c.insert id value position?).1 ∧
      (t.insert id value position?).2.Mirrors (c.insert id value position?).2 := by
  have holds := mirrors.holds.insert id value position?
  cases found : t.ofId? id with
  | some h =>
    have known := (mirrors.ofId?_eq id).symm.trans found
    obtain ⟨e, mem, rfl⟩ := (mirrors.holds.ids id h).1 found
    obtain ⟨handle, free, slots⟩ := insert_of_known found value position?
    rw [handle, mirrors.holds.find?_id mem, ← mirrors.holds.filter_handle mem] at holds
    have entries := c.entries_insert_of_known known mem value position?
    refine ⟨?_, entries ▸ holds, ?_, ?_⟩
    · rw [handle, Catalog.insert, known]
    · rw [free, Catalog.insert, known]
      exact mirrors.free
    · rw [slots, Catalog.insert, known]
      exact mirrors.slots
  | none =>
    have new := (mirrors.ofId?_eq id).symm.trans found
    obtain ⟨handle, free, slots⟩ := insert_of_new found value position?
    obtain ⟨next, pushed⟩ := mirrors.order.push ⟨value, id, position?⟩
    rw [handle, next, mirrors.holds.find?_id_of_absent found,
      mirrors.holds.filter_id_of_absent found, Option.bind_none, Option.or_none] at holds
    have entries := c.entries_insert_of_new new value position?
    refine ⟨?_, entries ▸ holds, ?_, ?_⟩
    · rw [handle, next, Catalog.insert, new]
      rfl
    · rw [free, pushed.free, Catalog.insert, new]
      rfl
    · rw [slots, pushed.slots, Catalog.insert, new]
      rfl

theorem promote (mirrors : t.Mirrors c) (h : Handle) : (t.promote h).Mirrors (c.promote h) := by
  have promoted := mirrors.order.promote h
  exact ⟨mirrors.holds.reorder promoted.lists fun x => Roster.mem_promote_iff, promoted.free,
    promoted.slots⟩

theorem remove (mirrors : t.Mirrors c) (h : Handle) :
    (t.remove h).1 = (c.erase h).1 ∧ (t.remove h).2.Mirrors (c.erase h).2 := by
  refine ⟨by rw [fst_remove, Roster.fst_erase, mirrors.entry?_eq], ?_⟩
  cases here : t.entry? h with
  | none =>
    rw [remove_of_dead here, Roster.erase_of_notMem (mirrors.holds.order.get?_eq_none_iff.1 here)]
    exact mirrors
  | some e =>
    have holds := (mirrors.holds.remove (mirrors.holds.entry?_eq_some_iff.1 here)).2
    have erased := (mirrors.order.erase h).2
    have order : (t.remove h).2.order = (t.order.erase h).2 := by
      simp only [Table.remove, show t.order.get? h = some e from here]
    refine ⟨c.entries_erase h ▸ holds, ?_, ?_⟩
    · rw [order, erased.free]
    · rw [order, erased.slots]

theorem evict (mirrors : t.Mirrors c) :
    t.evict.1 = c.dropOldest.1 ∧ t.evict.2.Mirrors c.dropOldest.2 := by
  unfold Table.evict Roster.dropOldest
  rw [← mirrors.oldest?_eq]
  cases t.order.oldest? with
  | none => exact ⟨rfl, mirrors⟩
  | some h => exact mirrors.remove h

theorem removeId (mirrors : t.Mirrors c) (id : ι) :
    (t.removeId id).1 = (c.removeId id).1 ∧ (t.removeId id).2.Mirrors (c.removeId id).2 := by
  unfold Table.removeId Catalog.removeId
  rw [← mirrors.ofId?_eq]
  cases t.ofId? id with
  | none => exact ⟨rfl, mirrors⟩
  | some h => exact mirrors.remove h

/-! ### Runs -/

/-- An operation gives what it gives for the catalog, and does to the table what it does to the
catalog. -/
theorem step (mirrors : t.Mirrors c) (op : Op ι α) :
    (t.step op).1 = (c.step op).1 ∧ (t.step op).2.Mirrors (c.step op).2 := by
  cases op with
  | insert i value position? =>
    obtain ⟨handle, rest⟩ := mirrors.insert i value position?
    exact ⟨congrArg (fun h => Reply.handle (some h)) handle, rest⟩
  | promote h => exact ⟨rfl, mirrors.promote h⟩
  | remove h =>
    obtain ⟨removed, rest⟩ := mirrors.remove h
    exact ⟨congrArg Reply.entry removed, rest⟩
  | evict =>
    obtain ⟨removed, rest⟩ := mirrors.evict
    exact ⟨congrArg Reply.entry removed, rest⟩
  | removeId i =>
    obtain ⟨removed, rest⟩ := mirrors.removeId i
    exact ⟨congrArg Reply.entry removed, rest⟩
  | clear => exact ⟨congrArg Reply.count mirrors.holds.size_eq, mirrors_empty⟩
  | atPosition p => exact ⟨congrArg Reply.handle (mirrors.atPosition?_eq p), mirrors⟩
  | ofId i => exact ⟨congrArg Reply.handle (mirrors.ofId?_eq i), mirrors⟩
  | covers p =>
    exact ⟨congrArg (fun h? => Reply.flag (Option.isSome h?)) (mirrors.atPosition?_eq p), mirrors⟩
  | get h => exact ⟨congrArg Reply.entry (mirrors.entry?_eq h), mirrors⟩
  | size => exact ⟨congrArg Reply.count mirrors.holds.size_eq, mirrors⟩
  | isEmpty => exact ⟨congrArg Reply.flag mirrors.isEmpty_eq, mirrors⟩
  | entries => exact ⟨congrArg Reply.listing mirrors.holds.entries_eq, mirrors⟩

theorem after (mirrors : t.Mirrors c) (ops : List (Op ι α)) :
    (t.after ops).Mirrors (c.after ops) := by
  induction ops generalizing t c with
  | nil => exact mirrors
  | cons op ops ih => exact ih (mirrors.step op).2

end Mirrors

/-! ## Handles -/

theorem ids_insert (t : Table ι α) (i : ι) (value : α) (position? : Option Nat) (id : ι) :
    (t.insert i value position?).2.ofId? id =
      if id = i then some (t.insert i value position?).1 else t.ofId? id := by
  cases found : t.ofId? i with
  | some h =>
    have same : (t.insert i value position?).2.ids = t.ids := by
      simp only [Table.insert, found]
      cases position? <;> rfl
    rw [(insert_of_known found value position?).1, ofId?, same]
    split
    · rename_i eq
      exact eq ▸ found
    · rfl
  | none =>
    have grown : (t.insert i value position?).2.ids =
        t.ids.insert i (t.insert i value position?).1 := by
      simp only [Table.insert, found]
      cases position? <;> rfl
    rw [ofId?, grown, Index.get?_insert]
    rfl

namespace Holds

variable {t : Table ι α} {es : List (Handle × Entry ι α)} {id i : ι} {h k : Handle}

theorem id_unique (holds : t.Holds es) (found : t.ofId? id = some h) (found' : t.ofId? i = some h) :
    id = i := by
  obtain ⟨e, here, rfl⟩ := holds.ofId?_eq_some_iff.1 found
  obtain ⟨e', here', rfl⟩ := holds.ofId?_eq_some_iff.1 found'
  rw [here] at here'
  cases here'
  rfl

theorem ofId?_remove (holds : t.Holds es) (k : Handle) (id : ι) :
    (t.remove k).2.ofId? id = if t.ofId? id = some k then none else t.ofId? id := by
  cases here : t.entry? k with
  | none =>
    have elsewhere : t.ofId? id ≠ some k := fun found => by
      obtain ⟨e, there, -⟩ := holds.ofId?_eq_some_iff.1 found
      rw [here] at there
      cases there
    rw [remove_of_dead here, if_neg elsewhere]
  | some e =>
    have own : t.ofId? id = some k ↔ id = e.id := by
      rw [holds.ofId?_eq_some_iff, here]
      simp [eq_comm]
    have erased : (t.remove k).2.ids = t.ids.erase e.id := by
      simp only [Table.remove, show t.order.get? k = some e from here]
    rw [ofId?, erased, Index.get?_erase]
    simp only [own]
    rfl

theorem entry?_remove (holds : t.Holds es) (h : Handle) : Table.entry? (t.remove h).2 h = none := by
  cases here : t.entry? h with
  | none =>
    rw [remove_of_dead here]
    exact here
  | some e =>
    have rest := (holds.remove (holds.entry?_eq_some_iff.1 here)).2
    rw [Table.entry?, rest.order.get?_eq_none_iff]
    simp

/-- An identity is at a handle after an operation where it was before and is not taken out, or
where the operation puts it there. -/
theorem ofId?_step (holds : t.Holds es) (op : Op ι α) :
    (t.step op).2.ofId? id = some h ↔
      (t.ofId? id = some h ∧ ¬op.Frees t.order.oldest? id h) ∨
      (t.ofId? id = none ∧ ∃ value position?, op = .insert id value position? ∧
        (t.insert id value position?).1 = h) := by
  have removed (k : Handle) : (t.remove k).2.ofId? id = some h ↔ t.ofId? id = some h ∧ k ≠ h := by
    rw [holds.ofId?_remove]
    split
    · rename_i found
      simp [found]
    · rename_i elsewhere
      refine ⟨fun found => ⟨found, ?_⟩, And.left⟩
      rintro rfl
      exact elsewhere found
  cases op with
  | insert i value position? =>
    change (t.insert i value position?).2.ofId? id = some h ↔ _
    rw [ids_insert]
    by_cases eq : id = i
    · subst eq
      cases found : t.ofId? id with
      | some k => simp [insert_of_known found, Op.Frees]
      | none => simp
    · simp [eq, Ne.symm eq, Op.Frees]
  | remove k => simpa [Op.Frees, Table.step] using removed k
  | evict =>
    change t.evict.2.ofId? id = some h ↔ _
    unfold Table.evict
    cases oldest : t.order.oldest? with
    | none => simp [Op.Frees]
    | some k => simpa [Op.Frees] using removed k
  | removeId i =>
    change (t.removeId i).2.ofId? id = some h ↔ _
    unfold Table.removeId
    cases found : t.ofId? i with
    | none =>
      have other : t.ofId? id = some h → i ≠ id := by
        rintro there rfl
        rw [found] at there
        cases there
      simpa [Op.Frees] using other
    | some k =>
      have same : t.ofId? id = some h → (k ≠ h ↔ i ≠ id) := fun there => by
        refine not_congr ⟨fun eq => ?_, fun eq => ?_⟩
        · exact holds.id_unique found (eq ▸ there)
        · exact Option.some.inj (found.symm.trans (eq ▸ there))
      simpa [Op.Frees] using (removed k).trans (and_congr_right same)
  | clear =>
    change (∅ : Table ι α).ofId? id = some h ↔ _
    simp [Op.Frees, Table.ofId?, show (∅ : Table ι α).ids = ∅ from rfl]
  | promote k =>
    change t.ofId? id = some h ↔ _
    simp [Op.Frees]
  | _ => simp [Op.Frees, Table.step]

/-- Nothing is at a handle after an operation that takes out what was there. -/
theorem entry?_step_of_frees (holds : t.Holds es) (found : t.ofId? id = some h) {op : Op ι α}
    (freed : op.Frees t.order.oldest? id h) : Table.entry? (t.step op).2 h = none := by
  have removed := holds.entry?_remove h
  cases op with
  | remove k =>
    cases freed
    exact removed
  | evict =>
    have oldest : t.order.oldest? = some h := freed
    change Table.entry? t.evict.2 h = none
    rw [Table.evict, oldest]
    exact removed
  | removeId i =>
    change Table.entry? (t.removeId i).2 h = none
    rw [show i = id from freed, Table.removeId, found]
    exact removed
  | clear => rfl
  | _ => cases freed

end Holds

/-- An identity is at a handle after operations where it was before and is spared, or where one of
the operations put it there and the later ones spare it. -/
theorem Mirrors.ofId?_after {t : Table ι α} {c : Catalog ι α} (mirrors : t.Mirrors c) {id : ι}
    {h : Handle} (ops : List (Op ι α)) :
    (t.after ops).ofId? id = some h ↔
      (t.ofId? id = some h ∧ t.Spares id h ops) ∨
      ∃ before value position? behind, ops = before ++ .insert id value position? :: behind ∧
        (t.after before).ofId? id = none ∧
        ((t.after before).insert id value position?).1 = h ∧
        ((t.after before).insert id value position?).2.Spares id h behind := by
  induction ops generalizing t c with
  | nil => simp [Table.after, Spares]
  | cons op ops ih =>
    refine (ih (mirrors.step op).2).trans ?_
    rw [mirrors.holds.ofId?_step]
    constructor
    · rintro (⟨⟨found, kept⟩ | ⟨absent, value, position?, rfl, handle⟩, spares⟩ |
        ⟨before, value, position?, behind, rfl, absent, handle, spares⟩)
      · exact Or.inl ⟨found, kept, spares⟩
      · exact Or.inr ⟨[], value, position?, ops, rfl, absent, handle, spares⟩
      · exact Or.inr ⟨op :: before, value, position?, behind, rfl, absent, handle, spares⟩
    · rintro (⟨found, kept, spares⟩ |
        ⟨_ | ⟨first, before⟩, value, position?, behind, eq, absent, handle, spares⟩)
      · exact Or.inl ⟨Or.inl ⟨found, kept⟩, spares⟩
      · obtain ⟨rfl, rfl⟩ := List.cons.inj eq
        exact Or.inl ⟨Or.inr ⟨absent, value, position?, rfl, handle⟩, spares⟩
      · obtain ⟨rfl, rfl⟩ := List.cons.inj eq
        exact Or.inr ⟨before, value, position?, behind, rfl, absent, handle, spares⟩

/-- **A table is the plain list of its entries, with the numbers of their slots.**  After any
operations on an empty table, with any handles, it shows what the plain list holds; no identity and
no position occurs twice, and the two indexes lead from the keys of each entry to it, and nowhere
else.  Whatever is done next gives the same reply.  An insertion gives the handle that its identity
has then; the identity stays there until its entry is taken out, and nothing is there then.  An
identity that is at a handle later on was there before and has stayed, or was given this handle
when it was inserted anew, and has stayed since. -/
theorem refines_catalog (ops : List (Op ι α)) :
    let t := (∅ : Table ι α).after ops
    let c := (∅ : Catalog ι α).after ops
    (t.entries = c.entries.map Prod.snd ∧ t.order.entries = c.entries ∧
      (t.entries.map (·.id)).Nodup ∧ (t.entries.filterMap (·.position?)).Nodup) ∧
    ((∀ id h, t.ids.get? id = some h ↔ ∃ e, (h, e) ∈ c.entries ∧ e.id = id) ∧
      ∀ p h, t.positions.get? p = some h ↔ ∃ e, (h, e) ∈ c.entries ∧ e.position? = some p) ∧
    (∀ op, (t.step op).1 = (c.step op).1) ∧
    (∀ id h, t.ofId? id = some h ↔ ∃ e, t.entry? h = some e ∧ e.id = id) ∧
    (∀ id value position?,
      (t.insert id value position?).2.ofId? id = some (t.insert id value position?).1) ∧
    (∀ id h op, t.ofId? id = some h → op.Frees t.order.oldest? id h →
      Table.entry? (t.step op).2 h = none) ∧
    ∀ id h ops', (t.after ops').ofId? id = some h ↔
      (t.ofId? id = some h ∧ t.Spares id h ops') ∨
      ∃ before value position? behind, ops' = before ++ .insert id value position? :: behind ∧
        (t.after before).ofId? id = none ∧
        ((t.after before).insert id value position?).1 = h ∧
        ((t.after before).insert id value position?).2.Spares id h behind := by
  intro t c
  have mirrors : t.Mirrors c := mirrors_empty.after ops
  have holds := mirrors.holds
  have positions := holds.nodup_positions
  refine ⟨⟨holds.entries_eq, holds.order.entries_eq, holds.wellFormed.nodup_ids, ?_⟩,
    ⟨holds.ids, holds.positions⟩, fun op => (mirrors.step op).1,
    fun id h => holds.ofId?_eq_some_iff, fun id value position? => ?_,
    fun id h op found freed => holds.entry?_step_of_frees found freed,
    fun id h ops' => mirrors.ofId?_after ops'⟩
  · rw [holds.entries_eq, List.filterMap_map]
    exact positions
  · rw [ids_insert, if_pos rfl]

/-- The slot of an entry that was removed is given to the next new identity, whose entry is found
at the old handle then. -/
theorem refines_catalog_recycled :
    let t := (∅ : Table Nat Nat).after
      [.insert 5 50 (some 0), .insert 6 60 none, .insert 5 51 (some 1), .insert 7 70 (some 1),
        .insert 5 52 none, .removeId 6, .remove 9, .insert 8 80 none]
    t.entries = [⟨80, 8, none⟩, ⟨52, 5, none⟩, ⟨70, 7, some 1⟩] ∧ t.atPosition? 0 = none ∧
      t.ofId? 8 = some 1 ∧
      (t.after [.promote 2, .evict, .insert 9 90 (some 1)]).ofId? 8 = some 1 ∧
      Table.entry? (t.step (.remove 1)).2 1 = none := by
  intro t
  obtain ⟨⟨entries, -⟩, -, replies, -, -, frees, later⟩ := refines_catalog (α := Nat)
    [.insert 5 50 (some 0), .insert 6 60 none, .insert 5 51 (some 1), .insert 7 70 (some 1),
      .insert 5 52 none, .removeId 6, .remove 9, .insert 8 80 none]
  have there : t.ofId? 8 = some 1 := by decide
  have other : (t.step (.promote 2)).2.order.oldest? ≠ some 1 := by decide
  exact ⟨entries, Reply.handle.inj (replies (.atPosition 0)), there,
    (later 8 1 _).2 (Or.inl ⟨there, id, other, id, trivial⟩), frees 8 1 (.remove 1) there rfl⟩

end ReadThrough.Table
