import ReadThrough.Proofs.Fronted.Sequential

/-!
# Reading a shelf that never fails

A shelf itself answers every call.  A cache that is in step with it therefore answers
each read exactly as the shelf does, the refusals included.

* `Cache.query_eq`: a cache over a source that never fails answers like the shelf.
* `Fronted.query` is a read through the cache, chosen by data.
* `Fronted.InStep.query`: what it answers, and that the cache stays in step.
-/

namespace ReadThrough

variable {ι α : Type} [DecidableEq ι] {s : Shelf ι α} {f : Fronted ι α}

theorem Shelf.truthful (pending : Change ι → Prop) (distinct : s.Distinct) :
    source.Truthful (s.answers pending) fun t => t = s where
  size t same := by
    refine ⟨same, fun n told => ?_⟩
    cases told
    exact Or.inr (same ▸ rfl)
  range start length t same := by
    refine ⟨same, fun vs brought _ => ?_⟩
    subst same
    exact range_answers brought
  byId id t same := by
    refine ⟨same, fun v? told => ?_⟩
    cases told
    exact Or.inr (Or.inl (same ▸ rfl))
  identify t same p v id item named := distinct.identify_answers item (same ▸ named)

theorem Shelf.reliable (lawful : s.Lawful) :
    source.Reliable (s.answers fun _ => False) (fun t => t = s) fun _ => False where
  size t _ e failed := by cases failed
  range start length n t same size within := by
    subst same
    rw [answers_nothing_size.1 size] at within
    have whole : t.range start length = .ok ((t.items.drop start).take length) := by
      rw [range, within]
    exact Or.inr ⟨_, whole, length_range whole⟩
  byId id t _ e failed := by cases failed
  size_lt n size := answers_nothing_size.1 size ▸ lawful.countable
  unique t same p q v w id item item' named named' :=
    lawful.distinct p q v w id (answers_nothing_item.1 item) (answers_nothing_item.1 item')
      (same ▸ named) (same ▸ named')

/-- Over a source that answers rightly for the shelf and is never struck, a cache answers
each read exactly as the shelf does. -/
theorem Cache.query_eq {σ : Type} {src : Source σ ι α} {inv : σ → Prop} {c : Cache ι α} {x : σ}
    (reliable : src.Reliable (s.answers fun _ => False) inv fun _ => False)
    (truthful : src.Truthful (s.answers fun _ => False) inv)
    (stocked : c.Stocked (s.answers fun _ => False)) (hx : inv x) (q : Query ι) :
    (query src q c x).1 = s.query q := by
  have served := query_served truthful stocked hx q
  cases answer : (query src q c x).1 with
  | ok v => exact (Fronted.query_eq_ok_of_right (served.answer v answer)).symm
  | error e =>
    have failed := query_error reliable truthful stocked hx (q := q) answer
    exact (Fronted.query_eq_error_of_refused (failed.resolve_left id)).symm

namespace Fronted

/-- Read through the cache. -/
def query (f : Fronted ι α) (q : Query ι) : Except Fault (q.Result α) × Fronted ι α :=
  f.read fun src => Cache.query src q

/-- A cache in step with its shelf answers like the shelf, and both stay as they are
but for what the cache keeps. -/
theorem InStep.query (inStep : f.InStep) (q : Query ι) :
    (f.query q).1 = f.shelf.query q ∧ (f.query q).2.shelf = f.shelf ∧ (f.query q).2.InStep := by
  have truthful := Shelf.truthful (fun _ => False) inStep.lawful.distinct
  have served := Cache.query_served truthful inStep.stocked rfl q
  have same : (f.query q).2.shelf = f.shelf := served.inv
  refine ⟨?_, same, ⟨same ▸ inStep.lawful, ?_⟩⟩
  · exact Cache.query_eq (Shelf.reliable inStep.lawful) truthful inStep.stocked rfl q
  · rw [same]
    exact served.stocked

end Fronted

end ReadThrough
