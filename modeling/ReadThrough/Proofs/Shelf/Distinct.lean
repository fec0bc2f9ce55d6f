import Mathlib.Tactic.Common
import ReadThrough.Shelf

/-!
# Shelves of distinct objects

No two objects of a `Shelf.Distinct` shelf share an identity; objects without one
may be there in any number.  On such a shelf the object with an identity is the one
that stands anywhere under it.
-/

namespace ReadThrough.Shelf

variable {ι α : Type} {s : Shelf ι α} {p q : Nat} {v w : α} {id : ι}

/-- Objects at different positions have different identities, if any. -/
def Distinct (s : Shelf ι α) : Prop :=
  ∀ (p q : Nat) v w id, s.items[p]? = some v → s.items[q]? = some w →
    s.identify v = some id → s.identify w = some id → p = q

@[simp] theorem size_withItems {items : List α} : (s.withItems items).size = items.length := rfl

theorem Distinct.eq_of_identify (distinct : s.Distinct) (at_p : s.items[p]? = some v)
    (at_q : s.items[q]? = some w) (hv : s.identify v = some id) (hw : s.identify w = some id) :
    v = w := by
  cases distinct p q v w id at_p at_q hv hw
  exact Option.some.inj (at_p.symm.trans at_q)

theorem distinct_iff_nodup : s.Distinct ↔ (s.items.filterMap s.identify).Nodup := by
  rw [List.nodup_iff_pairwise_ne, List.pairwise_filterMap, List.pairwise_iff_getElem]
  constructor
  · intro distinct p q hp hq lt id hv id' hw same
    subst same
    have eq : p = q := distinct p q _ _ id (List.getElem?_eq_getElem hp)
      (List.getElem?_eq_getElem hq) hv hw
    omega
  · intro nodup p q v w id at_p at_q hv hw
    obtain ⟨hp, rfl⟩ := List.getElem?_eq_some_iff.1 at_p
    obtain ⟨hq, rfl⟩ := List.getElem?_eq_some_iff.1 at_q
    rcases Nat.lt_trichotomy p q with lt | eq | gt
    · exact absurd rfl (nodup p q hp hq lt id hv id hw)
    · exact eq
    · exact absurd rfl (nodup q p hq hp gt id hw id hv)

theorem length_range {start length : Nat} {vs : List α} (brought : s.range start length = .ok vs) :
    vs.length = length := by
  unfold range at brought
  split at brought
  · rename_i within
    cases brought
    have le : start + length ≤ s.items.length := (guardRange_eq_ok_iff.1 within).2
    rw [List.length_take, List.length_drop]
    omega
  · cases brought

variable [DecidableEq ι]

instance : Decidable s.Distinct := decidable_of_iff' _ distinct_iff_nodup

theorem exists_of_byId? (found : s.byId? id = some v) :
    s.identify v = some id ∧ ∃ p : Nat, s.items[p]? = some v := by
  have is_id : s.hasId id v = true := List.find?_some (p := s.hasId id) found
  refine ⟨of_decide_eq_true is_id, ?_⟩
  exact List.mem_iff_getElem?.1 (List.mem_of_find?_eq_some found)

theorem Distinct.byId?_eq (distinct : s.Distinct) (at_p : s.items[p]? = some v)
    (hv : s.identify v = some id) : s.byId? id = some v := by
  cases found : s.byId? id with
  | none =>
    have none := List.find?_eq_none.1 found v (List.mem_of_getElem? at_p)
    exact absurd (decide_eq_true hv) none
  | some w =>
    obtain ⟨hw, q, at_q⟩ := exists_of_byId? found
    rw [distinct.eq_of_identify at_p at_q hv hw]

theorem exists_of_position? (found : s.position? id = some p) :
    ∃ v, s.items[p]? = some v ∧ s.identify v = some id := by
  obtain ⟨lt, is_id, -⟩ := List.findIdx?_eq_some_iff_getElem.1 found
  exact ⟨s.items[p], List.getElem?_eq_getElem lt, of_decide_eq_true is_id⟩

end ReadThrough.Shelf
