import ReadThrough.Fronted
import ReadThrough.Proofs.Source.Flaky

/-!
# Reading a shelf through a cache

While calls to it may fail, a shelf is read through a cache, edited, and exchanged
for another one, in any order.  Every answer is the one that the shelf itself gives
at that moment, and a read fails without need only where a call of it was struck.

* `Fronted.Reached` are the states of a shelf and its cache that such a use leads to.
* `Fronted.ask_exact`: what a read answers in such a state.
-/

namespace ReadThrough

variable {ι α β : Type}

/-- Objects with an identity are told apart by it, and all can be counted. -/
structure Shelf.Lawful (s : Shelf ι α) : Prop where
  distinct : s.Distinct
  countable : s.size < wordLimit

/-- The edits that a shelf offers. -/
inductive Shelf.Mutator [DecidableEq ι] [ToString ι] :
    {β : Type} → (Shelf ι α → Edit ι α β) → Prop
  | push (v : α) : Mutator fun s => s.push v
  | insert (position : Nat) (v : α) : Mutator fun s => s.insert position v
  | removeAt (position : Nat) : Mutator fun s => s.removeAt position
  | removeId (id : ι) : Mutator fun s => s.removeId id
  | replaceAll (items : List α) : Mutator fun s => s.replaceAll items
  | updateAt (v : α) (position : Nat) : Mutator fun s => s.updateAt v position
  | update (v : α) : Mutator fun s => s.update v

/-- The answer of the shelf itself to a read. -/
def Shelf.query [DecidableEq ι] (s : Shelf ι α) : (q : Query ι) → Except Fault (q.Result α)
  | .size => .ok s.size
  | .get position => s.get position
  | .range start length => s.range start length
  | .byId id => .ok (s.byId? id)

section

variable [DecidableEq ι]

theorem Shelf.Mutator.covers [ToString ι] {e : Shelf ι α → Edit ι α β} (mutator : Mutator e)
    (s : Shelf ι α) : s.Covers (e s).2.1 (e s).2.2 := by
  cases mutator with
  | push v => exact covers_push
  | insert position v => exact covers_insert
  | removeAt position => exact covers_removeAt
  | removeId id => exact covers_removeId
  | replaceAll items => exact covers_replaceAll
  | updateAt v position => exact covers_updateAt
  | update v => exact covers_update

/-- After all changes of an edit have been handled, none excuses anything. -/
theorem Cache.Stocked.announcedAll {c : Cache ι α} {s : Shelf ι α} {pending : Change ι → Prop}
    {changes : List (Change ι)}
    (stocked : c.Stocked (s.answers fun ch => ch ∈ changes ∨ pending ch)) :
    (changes.foldl Cache.apply c).Stocked (s.answers pending) := by
  induction changes generalizing c with
  | nil => exact stocked.mono (Shelf.answers_mono fun ch told => told.resolve_left List.not_mem_nil)
  | cons change changes ih =>
    refine ih (Cache.Stocked.announced (stocked.mono (Shelf.answers_mono fun ch told => ?_)))
    rcases told with told | told
    · exact (List.mem_cons.1 told).imp_right Or.inl
    · exact Or.inr (Or.inr told)

end

namespace Fronted

/-- Read from another shelf from now on. -/
def attach (f : Fronted ι α) (s : Shelf ι α) : Fronted ι α := ⟨s, f.cache.clear⟩

variable [DecidableEq ι] [ToString ι]

/-- Read through the cache while `ahead` happens to the calls to the shelf; also tells
whether one of them was struck. -/
def ask (f : Fronted ι α) (q : Query ι) (ahead : List (Option (Mishap α))) :
    Except Fault (q.Result α) × Fronted ι α × Bool :=
  let (answer, cache, flaky) := Cache.query Flaky.source q f.cache ⟨f.shelf, ahead, false⟩
  (answer, ⟨flaky.shelf, cache⟩, flaky.struck)

/-- The states that reads, edits, clearing and exchanging the shelf lead to, where
every shelf is lawful at every moment. -/
inductive Reached (sizing : Sizing) : Fronted ι α → Prop
  | new {s : Shelf ι α} : s.Lawful → Reached sizing (new s sizing)
  | ask {f : Fronted ι α} (q : Query ι) (ahead : List (Option (Mishap α))) :
    Reached sizing f → Reached sizing (f.ask q ahead).2.1
  | edit {β : Type} {f : Fronted ι α} {e : Shelf ι α → Edit ι α β} : Shelf.Mutator e →
    Reached sizing f → (f.edit e).2.shelf.Lawful → Reached sizing (f.edit e).2
  | clear {f : Fronted ι α} : Reached sizing f → Reached sizing f.clear
  | attach {f : Fronted ι α} {s : Shelf ι α} : s.Lawful → Reached sizing f →
    Reached sizing (f.attach s)

variable {f : Fronted ι α} {sizing : Sizing} {q : Query ι}

/-- What holds in every state that is reached. -/
structure InStep (f : Fronted ι α) : Prop where
  lawful : f.shelf.Lawful
  stocked : f.cache.Stocked (f.shelf.answers fun _ => False)

omit [ToString ι] in
theorem InStep.served (inStep : f.InStep) (q : Query ι) (ahead : List (Option (Mishap α))) :
    Cache.Served (f.shelf.answers fun _ => False) (fun y => y.shelf = f.shelf) f.cache
      (q.Right (f.shelf.answers fun _ => False))
      (Cache.query Flaky.source q f.cache ⟨f.shelf, ahead, false⟩) :=
  Cache.query_served (Flaky.truthful inStep.lawful.distinct) inStep.stocked rfl q

omit [ToString ι] in
theorem InStep.ask (inStep : f.InStep) (q : Query ι) (ahead : List (Option (Mishap α))) :
    (f.ask q ahead).2.1.InStep := by
  have served := inStep.served q ahead
  have same : (f.ask q ahead).2.1.shelf = f.shelf := served.inv
  refine ⟨same ▸ inStep.lawful, ?_⟩
  rw [same]
  exact served.stocked

theorem InStep.edit (inStep : f.InStep) {e : Shelf ι α → Edit ι α β} (mutator : Shelf.Mutator e)
    (lawful : (f.edit e).2.shelf.Lawful) : (f.edit e).2.InStep := by
  refine ⟨lawful, Cache.Stocked.announcedAll (inStep.stocked.mono ?_)⟩
  exact (mutator.covers f.shelf).within lawful.distinct fun _ => False

theorem Reached.inStep (reached : Reached sizing f) : f.InStep := by
  induction reached with
  | new lawful => exact ⟨lawful, .empty⟩
  | ask q ahead _ ih => exact ih.ask q ahead
  | edit mutator _ lawful ih => exact ih.edit mutator lawful
  | clear _ ih => exact ⟨ih.lawful, .clear⟩
  | attach lawful _ ih => exact ⟨lawful, .clear⟩

/-! ## Answers -/

omit [ToString ι] in
/-- What counts as right once all changes have been heard of is what the shelf
answers. -/
theorem query_eq_ok_of_right {s : Shelf ι α} {v : q.Result α}
    (right : q.Right (s.answers fun _ => False) v) : s.query q = .ok v := by
  cases q with
  | size => exact congrArg Except.ok (Shelf.answers_nothing_size.1 right).symm
  | get position =>
    have at_p : s.items[position]? = some v := Shelf.answers_nothing_item.1 right
    simp only [Shelf.query, Shelf.get, at_p]
    rfl
  | range start length =>
    obtain ⟨count, run, n, size, within⟩ := right
    rw [Shelf.answers_nothing_size.1 size] at within
    simp only [Shelf.query, Shelf.range, within]
    refine congrArg Except.ok (List.ext_getElem? fun i => ?_)
    rw [List.getElem?_take, List.getElem?_drop]
    split
    · have at_i := List.getElem?_eq_getElem (l := v) (i := i) (by omega)
      rw [at_i, Shelf.answers_nothing_item.1 (run i _ at_i)]
    · exact (List.getElem?_eq_none (by omega)).symm
  | byId id => exact congrArg Except.ok (Shelf.answers_nothing_named.1 right).symm

omit [ToString ι] in
theorem query_eq_error_of_refused {s : Shelf ι α} {e : Fault}
    (refused : q.Refused (s.answers fun _ => False) e) : s.query q = .error e := by
  cases q with
  | size => cases refused
  | get position =>
    obtain ⟨n, size, outside⟩ := refused
    rw [Shelf.answers_nothing_size.1 size, guardPosition] at outside
    split at outside
    · cases outside
    · rename_i ge
      have absent : s.items[position]? = none := List.getElem?_eq_none (Nat.not_lt.1 ge)
      cases outside
      simp only [Shelf.query, Shelf.get, absent]
      rfl
  | range start length =>
    obtain ⟨n, size, outside⟩ := refused
    rw [Shelf.answers_nothing_size.1 size] at outside
    simp only [Shelf.query, Shelf.range, outside]
    rfl
  | byId id => cases refused

/-- Whatever a read answers is what the shelf itself answers; and a read during which
no call was struck answers exactly like the shelf, also where that is a fault. -/
theorem ask_exact (reached : Reached sizing f) (q : Query ι)
    (ahead : List (Option (Mishap α))) :
    (∀ v, (f.ask q ahead).1 = .ok v → f.shelf.query q = .ok v) ∧
      ((f.ask q ahead).2.2 = false → (f.ask q ahead).1 = f.shelf.query q) := by
  have inStep := reached.inStep
  have sound : ∀ v, (f.ask q ahead).1 = .ok v → f.shelf.query q = .ok v := fun v eq =>
    query_eq_ok_of_right ((inStep.served q ahead).answer v eq)
  refine ⟨sound, fun calm => ?_⟩
  cases answer : (f.ask q ahead).1 with
  | ok v => exact (sound v answer).symm
  | error e =>
    have failed := Cache.query_error (s := (⟨f.shelf, ahead, false⟩ : Flaky ι α))
      (Flaky.reliable inStep.lawful.distinct inStep.lawful.countable)
      (Flaky.truthful inStep.lawful.distinct) inStep.stocked rfl (q := q) answer
    rcases failed with struck | refused
    · exact absurd (struck.symm.trans calm) Bool.noConfusion
    · exact (query_eq_error_of_refused refused).symm

/-- A read was refused before the shelf grew; the next one finds the new object. -/
theorem ask_exact_after_push :
    let shelf : Shelf Nat Nat := ⟨[7, 8], some⟩
    let f := ((new shelf ⟨2, 1, by decide, by decide⟩).ask (.get 1)
      [none, some (.refused "down" none)]).2.1
    @Eq (Except Fault Nat) ((f.edit fun s => s.push 9).2.ask (.get 2) []).1 (.ok 9) := by
  intro shelf f
  have reached : Reached ⟨2, 1, by decide, by decide⟩ (f.edit fun s => s.push 9).2 :=
    .edit (.push 9) (.ask _ _ (.new ⟨by decide, by decide⟩)) ⟨by decide, by decide⟩
  exact (ask_exact reached (.get 2) []).2 (by decide)

end Fronted

end ReadThrough
