import Mathlib.Data.List.Perm.Subperm
import ReadThrough.Proofs.Recency.Lists
import ReadThrough.Table

/-!
# Well-formed tables

The list of a table and its two indexes are separate data.  `Table.Holds t es`
says that they agree on one sequence `es` of handles and entries: the list holds
it, each identity leads to the entry that has it, and each position to the entry
that claims it.  So no identity and no position occurs twice.

* `Holds.promote`, `Holds.insert`, `Holds.remove` and `Holds.removeAll` are what
  the operations do to the sequence.
* `HoldsBut` is the state halfway through an insertion, where the new position is
  not indexed yet.
-/

namespace ReadThrough

variable {ι α : Type}

/-- The entry, which gives up `position?` if that is its position. -/
def Entry.vacate (position? : Option Nat) (e : Entry ι α) : Entry ι α :=
  if e.position? = position? then { e with position? := none } else e

@[simp] theorem Entry.vacate_id (position? : Option Nat) (e : Entry ι α) :
    (e.vacate position?).id = e.id := by
  unfold vacate
  split <;> rfl

@[simp] theorem Entry.vacate_value (position? : Option Nat) (e : Entry ι α) :
    (e.vacate position?).value = e.value := by
  unfold vacate
  split <;> rfl

theorem Entry.vacate_position?_eq_some_iff {position? : Option Nat} {e : Entry ι α} {p : Nat} :
    (e.vacate position?).position? = some p ↔
      e.position? = some p ∧ position? ≠ some p := by
  unfold vacate
  split
  · rename_i eq
    simp only [reduceCtorEq, false_iff, not_and, ne_eq, not_not]
    exact fun h => eq.symm.trans h
  · rename_i ne
    refine ⟨fun h => ⟨h, fun eq => ne (h.trans eq.symm)⟩, And.left⟩

theorem Entry.vacate_none (e : Entry ι α) : e.vacate none = e := by
  obtain ⟨v, id, p⟩ := e
  cases p <;> rfl

theorem Entry.vacate_of_ne {position? : Option Nat} {e : Entry ι α}
    (ne : e.position? ≠ position?) : e.vacate position? = e :=
  if_neg ne

namespace Table

variable [DecidableEq ι]

/-- List and indexes agree on the handles and entries `es`. -/
structure Holds (t : Table ι α) (es : List (Handle × Entry ι α)) : Prop where
  order : t.order.Lists es
  ids : ∀ id h, t.ids.get? id = some h ↔ ∃ e, (h, e) ∈ es ∧ e.id = id
  positions : ∀ p h, t.positions.get? p = some h ↔ ∃ e, (h, e) ∈ es ∧ e.position? = some p

theorem holds_empty : (∅ : Table ι α).Holds [] where
  order := Recency.lists_empty
  ids id h := by
    change (∅ : Index ι Handle).get? id = some h ↔ _
    simp
  positions p h := by
    change (∅ : Index Nat Handle).get? p = some h ↔ _
    simp

@[simp] theorem fst_remove (t : Table ι α) (h : Handle) : (t.remove h).1 = t.entry? h := by
  unfold Table.remove Table.entry?
  cases t.order.get? h <;> rfl

theorem remove_of_dead {t : Table ι α} {h : Handle} (dead : t.entry? h = none) :
    t.remove h = (none, t) := by
  unfold Table.remove
  unfold Table.entry? at dead
  rw [dead]

omit [DecidableEq ι] in
/-- Where no two elements give the same, what they give is without repetition. -/
theorem nodup_filterMap_on {β κ : Type} {f : β → Option κ} {xs : List β} (nodup : xs.Nodup)
    (once : ∀ x ∈ xs, ∀ y ∈ xs, ∀ k, f x = some k → f y = some k → x = y) :
    (xs.filterMap f).Nodup := by
  refine List.pairwise_filterMap.2 (nodup.imp_of_mem fun {x y} hx hy ne k gives k' gives' => ?_)
  rintro rfl
  exact ne (once x hx y hy k gives gives')

namespace Holds

variable {t : Table ι α} {es : List (Handle × Entry ι α)} {h k : Handle} {e e' : Entry ι α}

theorem entries_eq (holds : t.Holds es) : t.entries = es.map Prod.snd :=
  holds.order.toList_eq

theorem entry?_eq_some_iff (holds : t.Holds es) : t.entry? h = some e ↔ (h, e) ∈ es :=
  holds.order.get?_eq_some_iff

theorem ofId?_eq_some_iff (holds : t.Holds es) {id : ι} :
    t.ofId? id = some h ↔ ∃ e, t.entry? h = some e ∧ e.id = id := by
  simp only [holds.entry?_eq_some_iff]
  exact holds.ids id h

theorem atPosition?_eq_some_iff (holds : t.Holds es) {p : Nat} :
    t.atPosition? p = some h ↔ ∃ e, t.entry? h = some e ∧ e.position? = some p := by
  simp only [holds.entry?_eq_some_iff]
  exact holds.positions p h

/-- An identity occurs once. -/
theorem eq_of_id (holds : t.Holds es) (he : (h, e) ∈ es) (he' : (k, e') ∈ es)
    (same : e.id = e'.id) : h = k ∧ e = e' := by
  have eq : h = k := by
    have first := (holds.ids e.id h).2 ⟨e, he, rfl⟩
    have second := (holds.ids e.id k).2 ⟨e', he', same.symm⟩
    exact Option.some.inj (first.symm.trans second)
  subst eq
  exact ⟨rfl, holds.order.value_unique he he'⟩

/-- A position occurs once. -/
theorem eq_of_position (holds : t.Holds es) (he : (h, e) ∈ es) (he' : (k, e') ∈ es) {p : Nat}
    (at_e : e.position? = some p) (at_e' : e'.position? = some p) : h = k ∧ e = e' := by
  have eq : h = k := by
    have first := (holds.positions p h).2 ⟨e, he, at_e⟩
    have second := (holds.positions p k).2 ⟨e', he', at_e'⟩
    exact Option.some.inj (first.symm.trans second)
  subst eq
  exact ⟨rfl, holds.order.value_unique he he'⟩

/-- To leave out a handle is to leave out the identity of its entry. -/
theorem filter_handle (holds : t.Holds es) (mem : (h, e) ∈ es) :
    (es.filter fun x => x.1 ≠ h) = es.filter fun x => x.2.id ≠ e.id :=
  List.filter_congr fun x mem' => by
    refine decide_eq_decide.2 (not_congr ⟨?_, fun same => (holds.eq_of_id mem' mem same).1⟩)
    rintro rfl
    rw [holds.order.value_unique mem' mem]

omit [DecidableEq ι] in
/-- A key that leads to the entry which claims it is looked up by searching for that entry. -/
theorem eq_find? {found? : Option Handle} {claims : Entry ι α → Prop} [DecidablePred claims]
    (leads : ∀ h, found? = some h ↔ ∃ e, (h, e) ∈ es ∧ claims e) :
    found? = (es.find? fun x => claims x.2).map Prod.fst := by
  cases first : es.find? fun x => claims x.2 with
  | none =>
    rw [List.find?_eq_none] at first
    refine Option.eq_none_iff_forall_ne_some.2 fun h found => ?_
    obtain ⟨e, mem, claimed⟩ := (leads h).1 found
    exact first (h, e) mem (decide_eq_true claimed)
  | some x =>
    have claimed := List.find?_some first
    exact (leads x.1).2 ⟨x.2, List.mem_of_find?_eq_some first, of_decide_eq_true claimed⟩

theorem ofId?_eq (holds : t.Holds es) (id : ι) :
    t.ofId? id = (es.find? fun x => x.2.id = id).map Prod.fst :=
  eq_find? (holds.ids id)

theorem atPosition?_eq (holds : t.Holds es) (p : Nat) :
    t.atPosition? p = (es.find? fun x => x.2.position? = some p).map Prod.fst :=
  eq_find? (holds.positions p)

theorem find?_id (holds : t.Holds es) (mem : (h, e) ∈ es) :
    (es.find? fun x => x.2.id = e.id) = some (h, e) := by
  have found := (holds.ids e.id h).2 ⟨e, mem, rfl⟩
  obtain ⟨⟨k, e'⟩, first, rfl⟩ := Option.map_eq_some_iff.1 ((holds.ofId?_eq e.id).symm.trans found)
  rw [first, holds.order.value_unique (List.mem_of_find?_eq_some first) mem]

theorem id_ne_of_absent (holds : t.Holds es) {id : ι} (absent : t.ofId? id = none) :
    ∀ x ∈ es, x.2.id ≠ id := fun x mem same => by
  have bound := (holds.ids id x.1).2 ⟨x.2, mem, same⟩
  exact absurd (absent.symm.trans bound) (by simp)

theorem filter_id_of_absent (holds : t.Holds es) {id : ι} (absent : t.ofId? id = none) :
    (es.filter fun x => x.2.id ≠ id) = es :=
  List.filter_eq_self.2 fun x mem => decide_eq_true (holds.id_ne_of_absent absent x mem)

theorem find?_id_of_absent (holds : t.Holds es) {id : ι} (absent : t.ofId? id = none) :
    (es.find? fun x => x.2.id = id) = none :=
  Option.map_eq_none_iff.1 ((holds.ofId?_eq id).symm.trans absent)

theorem nodup (holds : t.Holds es) : es.Nodup := holds.order.nodup.of_map

theorem nodup_ids (holds : t.Holds es) : (es.map fun x => x.2.id).Nodup := by
  refine List.Nodup.map_on (fun x hx y hy same => ?_) holds.nodup
  obtain ⟨eq, eq'⟩ := holds.eq_of_id hx hy same
  exact Prod.ext eq eq'

theorem nodup_positions (holds : t.Holds es) : (es.filterMap fun x => x.2.position?).Nodup := by
  refine nodup_filterMap_on holds.nodup fun x hx y hy p at_x at_y => ?_
  obtain ⟨eq, eq'⟩ := holds.eq_of_position hx hy at_x at_y
  exact Prod.ext eq eq'

/-- The identity index is as large as the list. -/
theorem size_eq (holds : t.Holds es) : t.size = es.length := by
  refine (t.ids.size_eq_length holds.nodup_ids fun id => ?_).trans (List.length_map _)
  rw [List.mem_map]
  constructor
  · rintro ⟨h, bound⟩
    obtain ⟨e, mem, rfl⟩ := (holds.ids id h).1 bound
    exact ⟨(h, e), mem, rfl⟩
  · rintro ⟨⟨h, e⟩, mem, rfl⟩
    exact ⟨h, (holds.ids e.id h).2 ⟨e, mem, rfl⟩⟩

/-- The order of the entries does not matter to the indexes. -/
theorem reorder (holds : t.Holds es) {order : Recency (Entry ι α)}
    {es' : List (Handle × Entry ι α)} (lists : order.Lists es')
    (same : ∀ x, x ∈ es' ↔ x ∈ es) : ({ t with order := order } : Table ι α).Holds es' where
  order := lists
  ids id h := by simpa only [same] using holds.ids id h
  positions p h := by simpa only [same] using holds.positions p h

/-- The entry at a live handle moves to the front. -/
theorem promote (holds : t.Holds es) (mem : (h, e) ∈ es) :
    (t.promote h).Holds ((h, e) :: es.filter fun x => x.1 ≠ h) := by
  refine holds.reorder (holds.order.promote mem) fun x => ?_
  simp only [List.mem_cons, List.mem_filter, decide_eq_true_eq]
  constructor
  · rintro (rfl | ⟨hx, -⟩)
    · exact mem
    · exact hx
  · intro hx
    by_cases eq : x.1 = h
    · left
      obtain ⟨k, e'⟩ := x
      cases eq
      rw [holds.order.value_unique hx mem]
    · exact Or.inr ⟨hx, eq⟩

/-- The entry at a live handle leaves. -/
theorem remove (holds : t.Holds es) (mem : (h, e) ∈ es) :
    (t.remove h).1 = some e ∧ (t.remove h).2.Holds (es.filter fun x => x.1 ≠ h) := by
  have here := holds.order.get? mem
  have without : ∀ x, x ∈ es.filter (fun x => x.1 ≠ h) ↔ x ∈ es ∧ x.1 ≠ h := by simp
  have shape : ∀ p, (t.remove h).2.positions.get? p =
      if e.position? = some p then none else t.positions.get? p := by
    intro p
    simp only [Table.remove, here]
    cases at_e : e.position? with
    | none => simp
    | some q =>
      have bound := (holds.positions q h).2 ⟨e, mem, at_e⟩
      simp [Index.get?_eraseBinding, bound, eq_comm]
  simp only [Table.remove, here] at shape
  simp only [Table.remove, here, true_and]
  refine ⟨(holds.order.erase mem).2, fun id k => ?_, fun p k => ?_⟩
  · rw [Index.get?_erase]
    simp only [without]
    split
    · rename_i eq
      simp only [reduceCtorEq, false_iff, not_exists, not_and, and_imp]
      rintro e' mem' ne rfl
      exact ne (holds.eq_of_id mem' mem eq).1
    · rename_i ne
      rw [holds.ids]
      refine exists_congr fun e' => and_congr_left fun same => ?_
      refine ⟨fun mem' => ⟨mem', ?_⟩, And.left⟩
      rintro rfl
      exact ne (same.symm.trans (by rw [holds.order.value_unique mem' mem]))
  · rw [shape]
    simp only [without]
    split
    · rename_i at_e
      simp only [reduceCtorEq, false_iff, not_exists, not_and, and_imp]
      intro e' mem' ne at_e'
      exact ne (holds.eq_of_position mem' mem at_e' at_e).1
    · rename_i not_at
      rw [holds.positions]
      refine exists_congr fun e' => and_congr_left fun at_e' => ?_
      refine ⟨fun mem' => ⟨mem', ?_⟩, And.left⟩
      rintro rfl
      exact not_at (holds.order.value_unique mem' mem ▸ at_e')

end Holds

/-! ## Insertion -/

/-- List and identities agree on the entry at `h` and the others in `rest`.  The
positions of the others are indexed; if one leads to `h`, it is the right one. -/
structure HoldsBut (t : Table ι α) (h : Handle) (e : Entry ι α)
    (rest : List (Handle × Entry ι α)) : Prop where
  order : t.order.Lists ((h, e) :: rest)
  ids : ∀ id k, t.ids.get? id = some k ↔ ∃ e', (k, e') ∈ (h, e) :: rest ∧ e'.id = id
  others : ∀ p k, k ≠ h →
    (t.positions.get? p = some k ↔ ∃ e', (k, e') ∈ rest ∧ e'.position? = some p)
  own : ∀ p, t.positions.get? p = some h → e.position? = some p

namespace HoldsBut

variable {t : Table ι α} {h : Handle} {e : Entry ι α} {rest : List (Handle × Entry ι α)}

theorem out (holds : t.HoldsBut h e rest) : h ∉ rest.map Prod.fst :=
  (List.nodup_cons.1 holds.order.nodup).1

/-- Nothing is missing if the entry at `h` is found as well. -/
theorem toHolds (holds : t.HoldsBut h e rest)
    (found : ∀ p, e.position? = some p → t.positions.get? p = some h) :
    t.Holds ((h, e) :: rest) := by
  refine ⟨holds.order, holds.ids, fun p k => ?_⟩
  by_cases eq : k = h
  · subst eq
    refine ⟨fun bound => ⟨e, by simp, holds.own p bound⟩, ?_⟩
    rintro ⟨e', mem, at_e'⟩
    have same : e' = e := holds.order.value_unique mem List.mem_cons_self
    exact found p (same ▸ at_e')
  · rw [holds.others p k eq]
    refine exists_congr fun e' => and_congr_left fun _ => ?_
    simp [eq]

/-- The entry that `p` leads to, if it is not the one at `h`, loses its position. -/
theorem order_bind (holds : t.HoldsBut h e rest) (p : Nat) :
    (t.bind h p).order.Lists ((h, e) :: rest.map fun x => (x.1, x.2.vacate (some p))) := by
  have claimed : ∀ x ∈ rest, x.2.position? = some p → t.positions.get? p = some x.1 :=
    fun x mem at_x =>
      have ne : x.1 ≠ h := fun eq => holds.out (eq ▸ List.mem_map_of_mem mem)
      (holds.others p x.1 ne).2 ⟨x.2, mem, at_x⟩
  -- where `p` leads to no entry but that at `h`, vacating it changes nothing
  have unclaimed (free : ∀ x ∈ rest, t.positions.get? p ≠ some x.1) :
      (rest.map fun x => (x.1, x.2.vacate (some p))) = rest := by
    refine (List.map_congr_left fun x mem => ?_).trans (List.map_id _)
    rw [Entry.vacate_of_ne fun at_x => free x mem (claimed x mem at_x)]
    rfl
  simp only [Table.bind]
  cases bound : t.positions.get? p with
  | none =>
    rw [unclaimed fun x _ => by simp [bound]]
    exact holds.order
  | some other =>
    by_cases eq : other = h
    · have free : ∀ x ∈ rest, t.positions.get? p ≠ some x.1 := fun x mem at_x => by
        rw [bound, Option.some.injEq] at at_x
        exact holds.out (eq ▸ at_x ▸ List.mem_map_of_mem mem)
      rw [unclaimed free]
      simpa [eq] using holds.order
    · obtain ⟨e₁, mem₁, at_e₁⟩ := (holds.others p other eq).1 bound
      have modified := holds.order.modify other fun e => { e with position? := none }
      rw [List.map_cons, if_neg (Ne.symm eq)] at modified
      simp only [ne_eq, eq, not_false_eq_true, if_true]
      refine (List.map_congr_left fun x mem => ?_) ▸ modified
      by_cases here : x.1 = other
      · have same : x.2 = e₁ := by
          have mem' : (other, x.2) ∈ (h, e) :: rest := by simp [← here, mem]
          exact holds.order.value_unique mem' (List.mem_cons_of_mem _ mem₁)
        rw [if_pos here, Entry.vacate, if_pos (same ▸ at_e₁)]
      · have elsewhere : x.2.position? ≠ some p := fun at_x =>
          here (Option.some.inj ((claimed x mem at_x).symm.trans bound))
        rw [if_neg here, Entry.vacate_of_ne elsewhere]

omit [DecidableEq ι] in
theorem mem_vacate_iff {rest : List (Handle × Entry ι α)} {k : Handle} {p q : Nat} :
    (∃ e, (k, e) ∈ rest.map (fun x => (x.1, x.2.vacate (some p))) ∧ e.position? = some q) ↔
      p ≠ q ∧ ∃ e, (k, e) ∈ rest ∧ e.position? = some q := by
  simp only [List.mem_map, Prod.mk.injEq, Prod.exists]
  constructor
  · rintro ⟨e, ⟨k', e₁, mem, rfl, rfl⟩, at_q⟩
    obtain ⟨at_q, ne⟩ := Entry.vacate_position?_eq_some_iff.1 at_q
    exact ⟨fun eq => ne (by rw [eq]), e₁, mem, at_q⟩
  · rintro ⟨ne, e₁, mem, at_q⟩
    refine ⟨_, ⟨k, e₁, mem, rfl, rfl⟩, Entry.vacate_position?_eq_some_iff.2 ⟨at_q, ?_⟩⟩
    exact fun eq => ne (Option.some.inj eq)

/-- The position goes to the entry at `h`, and whoever had it loses it. -/
theorem bind (holds : t.HoldsBut h e rest) {p : Nat} (at_e : e.position? = some p) :
    (t.bind h p).Holds ((h, e) :: rest.map fun x => (x.1, x.2.vacate (some p))) := by
  refine ⟨holds.order_bind p, fun id k => ?_, fun q k => ?_⟩
  · refine (holds.ids id k).trans ?_
    simp only [List.mem_cons, List.mem_map, Prod.mk.injEq]
    constructor
    · rintro ⟨e', eq | mem, rfl⟩
      · exact ⟨e', Or.inl eq, rfl⟩
      · exact ⟨_, Or.inr ⟨(k, e'), mem, rfl, rfl⟩, by simp⟩
    · rintro ⟨e', eq | ⟨x, mem, rfl, rfl⟩, rfl⟩
      · exact ⟨e', Or.inl eq, rfl⟩
      · exact ⟨x.2, Or.inr mem, by simp⟩
  · change (t.positions.insert p h).get? q = some k ↔ _
    have split : (∃ e', (k, e') ∈ (h, e) :: rest.map (fun x => (x.1, x.2.vacate (some p))) ∧
        e'.position? = some q) ↔ (k = h ∧ p = q) ∨ p ≠ q ∧
          ∃ e', (k, e') ∈ rest ∧ e'.position? = some q := by
      rw [← mem_vacate_iff]
      simp only [List.mem_cons, Prod.mk.injEq]
      constructor
      · rintro ⟨e', ⟨rfl, rfl⟩ | mem, at_q⟩
        · exact Or.inl ⟨rfl, Option.some.inj (at_e.symm.trans at_q)⟩
        · exact Or.inr ⟨e', mem, at_q⟩
      · rintro (⟨rfl, rfl⟩ | ⟨e', mem, at_q⟩)
        · exact ⟨e, Or.inl ⟨rfl, rfl⟩, at_e⟩
        · exact ⟨e', Or.inr mem, at_q⟩
    rw [Index.get?_insert, split]
    by_cases eq : q = p
    · subst eq
      simp [eq_comm]
    · have ne : p ≠ q := Ne.symm eq
      simp only [eq, if_false, ne, and_false, false_or, ne_eq, not_false_eq_true, true_and]
      by_cases here : k = h
      · subst here
        constructor
        · intro bound
          exact absurd (Option.some.inj (at_e.symm.trans (holds.own q bound))) ne
        · rintro ⟨e', mem, -⟩
          exact absurd (List.mem_map_of_mem mem) holds.out
      · exact holds.others q k here

end HoldsBut

namespace Holds

variable {t : Table ι α} {es : List (Handle × Entry ι α)} {h : Handle} {e : Entry ι α}
variable {id : ι} {value : α} {position? : Option Nat}

/-- An identity that is not there yet gets an entry in front. -/
theorem enroll (holds : t.Holds es) (absent : t.ofId? id = none) :
    (t.enroll id value position?).2.HoldsBut (t.enroll id value position?).1
      ⟨value, id, position?⟩ es := by
  obtain ⟨out, order⟩ := holds.order.push ⟨value, id, position?⟩
  refine ⟨order, fun id' k => ?_, fun p k _ => holds.positions p k, fun p bound => ?_⟩
  · change (t.ids.insert id (t.order.push ⟨value, id, position?⟩).1).get? id' = some k ↔ _
    rw [Index.get?_insert]
    simp only [List.mem_cons, Prod.mk.injEq]
    by_cases eq : id' = id
    · subst eq
      simp only [if_true, Option.some.injEq]
      constructor
      · rintro rfl
        exact ⟨_, Or.inl ⟨rfl, rfl⟩, rfl⟩
      · rintro ⟨e', ⟨rfl, -⟩ | mem, same⟩
        · rfl
        · exact absurd same (holds.id_ne_of_absent absent (k, e') mem)
    · rw [if_neg eq, holds.ids]
      refine exists_congr fun e' => and_congr_left fun same => ?_
      constructor
      · exact Or.inr
      · rintro (⟨-, rfl⟩ | mem)
        · exact absurd same.symm eq
        · exact mem
  · obtain ⟨e', mem, -⟩ := (holds.positions p _).1 bound
    exact absurd (List.mem_map_of_mem mem) out

/-- Refreshing an entry unbinds its position if it is given another one. -/
theorem get?_positions_refresh (holds : t.Holds es) (mem : (h, e) ∈ es) (p : Nat) :
    (t.refresh h value position?).positions.get? p =
      if e.position? = some p ∧ position?.or e.position? ≠ some p then none
      else t.positions.get? p := by
  have here : t.order.get? h = some e := holds.order.get? mem
  simp only [Table.refresh, here, Option.bind_some]
  cases at_e : e.position? with
  | none => simp
  | some old =>
    cases position? with
    | none => simp
    | some new =>
      have bound := (holds.positions old h).2 ⟨e, mem, at_e⟩
      by_cases eq : old = new
      · subst eq
        simp
      · simp only [ne_eq, eq, not_false_eq_true, if_true, Index.get?_eraseBinding, bound,
          and_true, Option.some.injEq, Option.some_or]
        by_cases there : old = p
        · subst there
          simp [Ne.symm eq]
        · simp [there, Ne.symm there]

/-- The entry at a live handle gets a new value, a new position if one is known,
and the place in front. -/
theorem refresh (holds : t.Holds es) (mem : (h, e) ∈ es) :
    (t.refresh h value position?).HoldsBut h
      { e with value := value, position? := position?.or e.position? }
      (es.filter fun x => x.1 ≠ h) := by
  have here : t.order.get? h = some e := holds.order.get? mem
  let f : Entry ι α → Entry ι α := fun e =>
    { e with value := value, position? := position?.or e.position? }
  have modified := holds.order.modify h f
  have moved : (h, f e) ∈ es.map fun x => if x.1 = h then (x.1, f x.2) else x :=
    List.mem_map.2 ⟨(h, e), mem, by simp⟩
  have order := modified.promote moved
  rw [Recency.filter_modify_ne] at order
  have others : ∀ k, k ≠ h → ∀ e', ((k, e') ∈ es.filter (fun x => x.1 ≠ h) ↔ (k, e') ∈ es) :=
    fun k ne e' => by simp [ne]
  have own : ∀ p, t.positions.get? p = some h → e.position? = some p := fun p bound => by
    obtain ⟨e', mem', at_e'⟩ := (holds.positions p h).1 bound
    exact holds.order.value_unique mem' mem ▸ at_e'
  refine ⟨order, fun id k => ?_, fun p k ne => ?_, fun p bound => ?_⟩
  · refine (holds.ids id k).trans ?_
    by_cases eq : k = h
    · subst eq
      constructor
      · rintro ⟨e', mem', rfl⟩
        exact ⟨_, List.mem_cons_self, by rw [holds.order.value_unique mem' mem]⟩
      · rintro ⟨e', mem', rfl⟩
        refine ⟨e, mem, ?_⟩
        rcases List.mem_cons.1 mem' with same | mem'
        · rw [(Prod.mk.inj same).2]
        · simp at mem'
    · refine exists_congr fun e' => and_congr_left fun _ => ?_
      simp [eq]
  · simp only [others k ne]
    rw [← holds.positions, holds.get?_positions_refresh mem]
    split
    · rename_i gone
      have bound := (holds.positions p h).2 ⟨e, mem, gone.1⟩
      simp [bound, Ne.symm ne]
    · rfl
  · rw [holds.get?_positions_refresh mem] at bound
    split at bound
    · cases bound
    · rename_i kept
      simpa only [own p bound, true_and, ne_eq, not_not] using kept

/-- What inserting does to the list: the entry of the identity comes to the front,
and another entry at its position loses it. -/
theorem insert (holds : t.Holds es) (id : ι) (value : α) (position? : Option Nat) :
    (t.insert id value position?).2.Holds
      (((t.insert id value position?).1, ⟨value, id,
          position?.or ((es.find? fun x => x.2.id = id).bind fun x => x.2.position?)⟩) ::
        (es.filter fun x => x.2.id ≠ id).map fun x => (x.1, x.2.vacate position?)) := by
  cases found : t.ofId? id with
  | none =>
    have enrolled : (t.enroll id value position?).2.HoldsBut _ _ _ := holds.enroll found
    rw [holds.filter_id_of_absent found, holds.find?_id_of_absent found, Option.bind_none,
      Option.or_none]
    simp only [Table.insert, found]
    cases position? with
    | none => simpa only [Entry.vacate_none, List.map_id'] using enrolled.toHolds (by simp)
    | some p => exact enrolled.bind rfl
  | some h =>
    obtain ⟨e, mem, rfl⟩ := (holds.ids id h).1 found
    have refreshed : (t.refresh h value position?).HoldsBut _ _ _ := holds.refresh mem
    rw [← holds.filter_handle mem, holds.find?_id mem, Option.bind_some]
    simp only [Table.insert, found]
    cases position? with
    | none =>
      have bound : ∀ p, e.position? = some p →
          (t.refresh h value none).positions.get? p = some h := fun p at_e => by
        rw [holds.get?_positions_refresh mem, if_neg (by simp)]
        exact (holds.positions p h).2 ⟨e, mem, at_e⟩
      simpa only [Entry.vacate_none, List.map_id'] using refreshed.toHolds bound
    | some p => exact refreshed.bind rfl

/-- Removing one handle after another leaves out their entries. -/
theorem removeAll (holds : t.Holds es) {hs : List Handle} (nodup : hs.Nodup)
    (live : ∀ k ∈ hs, k ∈ es.map Prod.fst) :
    (t.removeAll hs).1 = hs.length ∧
      (t.removeAll hs).2.Holds (es.filter fun x => x.1 ∉ hs) := by
  induction hs generalizing t es with
  | nil =>
    refine ⟨rfl, ?_⟩
    simpa [Table.removeAll] using holds
  | cons k hs ih =>
    obtain ⟨out, nodup'⟩ := List.nodup_cons.1 nodup
    obtain ⟨x, mem, rfl⟩ := List.mem_map.1 (live k List.mem_cons_self)
    obtain ⟨removed, rest⟩ := holds.remove mem
    have still : ∀ k' ∈ hs, k' ∈ (es.filter fun y => y.1 ≠ x.1).map Prod.fst := fun k' mem' => by
      obtain ⟨y, hy, rfl⟩ := List.mem_map.1 (live k' (List.mem_cons_of_mem _ mem'))
      refine List.mem_map_of_mem (List.mem_filter.2 ⟨hy, decide_eq_true ?_⟩)
      exact fun eq => out (eq ▸ mem')
    obtain ⟨count, final⟩ := ih rest nodup' still
    have shape : t.removeAll (x.1 :: hs) =
        (((t.remove x.1).2.removeAll hs).1 + 1, ((t.remove x.1).2.removeAll hs).2) := by
      rw [Table.removeAll]
      split
      · rename_i t' eq
        rw [eq]
      · rename_i t' eq
        rw [eq] at removed
        cases removed
    rw [shape, List.length_cons, count]
    refine ⟨rfl, ?_⟩
    rw [List.filter_filter] at final
    refine Eq.mp (congrArg _ (List.filter_congr fun y _ => ?_)) final
    simp [Bool.and_comm]

end Holds

end Table

end ReadThrough
