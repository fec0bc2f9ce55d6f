import Mathlib.Data.List.Induction
import Mathlib.Data.List.Perm.Subperm
import ReadThrough.Proofs.Recency.Chain

/-!
# Traversals of a recency list

Whoever goes through a recency list reads a slot, takes one of its two links, and stops where
there is none.

* `Recency.Follows` is a walk that comes to an end: every slot on it is there and holds a value.
  It does not come back to a slot (`Follows.nodup`).
* `Segment.follows_older` and `Segment.follows_newer`: a linked run can be walked in both
  directions.
* `Recency.Visits` is what an audit relies on: the walk from the front shows every value there
  is, and as many as are counted.
-/

namespace ReadThrough.Recency

variable {α : Type}

/-- From `h?` on, one link after the other leads through the slots in `es`, which hold these
values, and then to the end. -/
inductive Follows (link : Slot α → Option Handle) (slots : Array (Slot α)) :
    Option Handle → List (Handle × α) → Prop
  | done : Follows link slots none []
  | step {h : Handle} {a : α} {s : Slot α} {es : List (Handle × α)} :
    slots[h]? = some s → s.value? = some a → Follows link slots (link s) es →
    Follows link slots (some h) ((h, a) :: es)

namespace Follows

variable {link : Slot α → Option Handle} {slots : Array (Slot α)} {h? : Option Handle}
variable {es es' : List (Handle × α)} {h : Handle} {a : α}

/-- The start decides what is seen. -/
theorem unique (follows : Follows link slots h? es) (follows' : Follows link slots h? es') :
    es = es' := by
  induction follows generalizing es' with
  | done =>
    cases follows'
    rfl
  | step slot value _ ih =>
    cases follows' with
    | step slot' value' rest =>
      rw [slot, Option.some.injEq] at slot'
      subst slot'
      rw [value, Option.some.injEq] at value'
      subst value'
      rw [ih rest]

theorem slot (follows : Follows link slots h? es) (mem : (h, a) ∈ es) :
    ∃ s, slots[h]? = some s ∧ s.value? = some a := by
  induction follows with
  | done => cases mem
  | step slot value _ ih =>
    rcases List.mem_cons.1 mem with eq | mem
    · cases eq
      exact ⟨_, slot, value⟩
    · exact ih mem

/-- The walk can be started at any slot on it, and is not longer then. -/
theorem exists_suffix (follows : Follows link slots h? es) (mem : h ∈ es.map Prod.fst) :
    ∃ ys, Follows link slots (some h) ys ∧ ys.length ≤ es.length := by
  induction follows with
  | done => cases mem
  | step slot value rest ih =>
    rcases List.mem_cons.1 mem with eq | mem
    · subst eq
      exact ⟨_, .step slot value rest, Nat.le_refl _⟩
    · obtain ⟨ys, suffix, le⟩ := ih mem
      exact ⟨ys, suffix, Nat.le_succ_of_le le⟩

/-- A walk that ends passes no slot twice: it would be longer than itself. -/
theorem nodup (follows : Follows link slots h? es) : (es.map Prod.fst).Nodup := by
  induction follows with
  | done => exact List.nodup_nil
  | step slot value rest ih =>
    refine List.nodup_cons.2 ⟨fun again => ?_, ih⟩
    obtain ⟨ys, suffix, le⟩ := rest.exists_suffix again
    rw [suffix.unique (.step slot value rest)] at le
    exact Nat.not_succ_le_self _ le

theorem length_le (follows : Follows link slots h? es) : es.length ≤ slots.size := by
  have inside : es.map Prod.fst ⊆ List.range slots.size := fun h mem => by
    obtain ⟨e, he, rfl⟩ := List.mem_map.1 mem
    obtain ⟨s, slot, -⟩ := follows.slot he
    exact List.mem_range.2 (Array.getElem?_eq_some_iff.1 slot).1
  simpa using (List.subperm_of_subset follows.nodup inside).length_le

/-- Enough steps reach the end. -/
theorem walk_eq {l : Recency α} (follows : Follows Slot.older? l.slots h? es) {n : Nat}
    (le : es.length ≤ n) : l.walk n h? = es := by
  induction follows generalizing n with
  | done => cases n <;> rfl
  | @step h a s es slot value _ ih =>
    obtain ⟨_, newer?, older?⟩ := s
    cases value
    cases n with
    | zero => cases le
    | succ n => simp only [walk, slot, ih (Nat.le_of_succ_le_succ le)]

end Follows

/-! ## Linked runs -/

theorem Segment.follows_older {slots : Array (Slot α)} {newer? : Option Handle}
    {es : List (Handle × α)} (seg : Segment slots newer? es none) :
    Follows Slot.older? slots (es.head?.map Prod.fst) es := by
  induction es generalizing newer? with
  | nil => exact .done
  | cons e es ih =>
    obtain ⟨here, rest⟩ := seg
    rw [Option.or_none] at here
    exact .step here rfl (ih rest)

theorem Segment.follows_newer {slots : Array (Slot α)} {older? : Option Handle}
    {es : List (Handle × α)} (seg : Segment slots none es older?) :
    Follows Slot.newer? slots (es.getLast?.map Prod.fst) es.reverse := by
  induction es using List.reverseRecOn generalizing older? with
  | nil => exact .done
  | append_singleton es e ih =>
    obtain ⟨before, here, -⟩ := segment_append.1 seg
    rw [Option.or_none] at here
    rw [List.getLast?_concat, List.reverse_concat]
    exact .step here rfl (ih before)

/-! ## Whole lists -/

/-- The walk from the front shows `es`; no slot holds anything else, and `es` is as long as the
list is said to be. -/
structure Visits (l : Recency α) (es : List (Handle × α)) : Prop where
  follows : Follows Slot.older? l.slots l.newest? es
  complete : ∀ h a, l.get? h = some a → (h, a) ∈ es
  size : l.size = es.length

namespace Visits

variable {l : Recency α} {es : List (Handle × α)} {h : Handle} {a : α}

theorem entries_eq (visits : l.Visits es) : l.entries = es :=
  visits.follows.walk_eq visits.follows.length_le

theorem get?_eq_some_iff (visits : l.Visits es) : l.get? h = some a ↔ (h, a) ∈ es := by
  refine ⟨visits.complete h a, fun mem => ?_⟩
  obtain ⟨s, slot, value⟩ := visits.follows.slot mem
  simp [get?, slot, value]

end Visits

end ReadThrough.Recency
