import ReadThrough.Proofs.Cache.Exactness
import ReadThrough.Proofs.Shelf.Announced

/-!
# Shelves that fail now and then

A `Flaky` shelf goes through a list of what happens to the calls to it: a call may be
refused, or a range may bring another number of objects than there are.  After the
list every call is answered.

* `Flaky.source` answers from the shelf and remembers whether a call was struck.
* `Flaky.truthful`: what is answered is what the shelf holds.
* `Flaky.reliable`: a call that was not struck is answered.
-/

namespace ReadThrough

variable {ι α : Type}

/-- What can go wrong with one call. -/
inductive Mishap (α : Type) : Type where
  | refused (message : String) (cause? : Option String)
  /-- These objects arrive, if they are not as many as those asked for. -/
  | miscounted (values : List α)

/-- A shelf, what happens to the calls to it from now on, and whether any has been
struck. -/
structure Flaky (ι α : Type) : Type where
  shelf : Shelf ι α
  ahead : List (Option (Mishap α))
  struck : Bool

namespace Flaky

/-- What happens to the next call, and the state after it. -/
def next (f : Flaky ι α) : Option (Mishap α) × Flaky ι α :=
  match f.ahead with
  | [] => (none, f)
  | mishap? :: ahead => (mishap?, { f with ahead := ahead })

def strike (f : Flaky ι α) : Flaky ι α := { f with struck := true }

/-- A call that is answered unless it is refused. -/
def call {β : Type} (f : Flaky ι α) (answer : Except Fault β) : Except Fault β × Flaky ι α :=
  match f.next with
  | (some (.refused message cause?), f) => (.error (.unavailable message cause?), f.strike)
  | (some (.miscounted _), f) | (none, f) => (answer, f)

/-- A call for a range. -/
def callRange (f : Flaky ι α) (answer : Except Fault (List α)) :
    Except Fault (List α) × Flaky ι α :=
  match f.next with
  | (some (.refused message cause?), f) => (.error (.unavailable message cause?), f.strike)
  | (some (.miscounted values), f) =>
    match answer with
    | .ok vs => if values.length = vs.length then (.ok vs, f) else (.ok values, f.strike)
    | .error e => (.error e, f)
  | (none, f) => (answer, f)

variable [DecidableEq ι]

def source : Source (Flaky ι α) ι α where
  size f := f.call (.ok f.shelf.size)
  range start length f := f.callRange (f.shelf.range start length)
  byId id f := f.call (.ok (f.shelf.byId? id))
  identify f := f.shelf.identify

variable {s : Shelf ι α} {f : Flaky ι α} {pending : Change ι → Prop}

omit [DecidableEq ι] in
@[simp] theorem shelf_next : f.next.2.shelf = f.shelf := by
  unfold next
  split <;> rfl

omit [DecidableEq ι] in
theorem call_spec {β : Type} (f : Flaky ι α) (answer : Except Fault β) :
    (f.call answer).2.shelf = f.shelf ∧
      ((f.call answer).1 = answer ∨
        (f.call answer).2.struck = true ∧ ∃ e, (f.call answer).1 = .error e) := by
  have same := shelf_next (f := f)
  unfold call
  rcases eq : f.next with ⟨mishap?, f'⟩
  rw [eq] at same
  rcases mishap? with _ | ⟨message, cause?⟩ | ⟨values⟩
  · exact ⟨same, Or.inl rfl⟩
  · exact ⟨same, Or.inr ⟨rfl, _, rfl⟩⟩
  · exact ⟨same, Or.inl rfl⟩

omit [DecidableEq ι] in
theorem callRange_spec (f : Flaky ι α) (answer : Except Fault (List α)) :
    (f.callRange answer).2.shelf = f.shelf ∧
      ((f.callRange answer).1 = answer ∨ (f.callRange answer).2.struck = true ∧
        ∀ vs, (f.callRange answer).1 = .ok vs → ∃ ws, answer = .ok ws ∧ vs.length ≠ ws.length) := by
  have same := shelf_next (f := f)
  unfold callRange
  rcases eq : f.next with ⟨mishap?, f'⟩
  rw [eq] at same
  rcases mishap? with _ | ⟨message, cause?⟩ | ⟨values⟩
  · exact ⟨same, Or.inl rfl⟩
  · exact ⟨same, Or.inr ⟨rfl, fun vs eq => by cases eq⟩⟩
  · cases answer with
    | error e => exact ⟨same, Or.inl rfl⟩
    | ok ws =>
      dsimp only
      split
      · exact ⟨same, Or.inl rfl⟩
      · rename_i other
        exact ⟨same, Or.inr ⟨rfl, fun vs eq => ⟨ws, rfl, Except.ok.inj eq ▸ other⟩⟩⟩

/-- Whatever a flaky shelf answers, it holds. -/
theorem truthful (distinct : s.Distinct) :
    source.Truthful (s.answers pending) fun f => f.shelf = s where
  size f same := by
    obtain ⟨same', either⟩ := f.call_spec (.ok f.shelf.size)
    refine ⟨same'.trans same, fun n eq => ?_⟩
    rcases either with answered | ⟨-, e, refused⟩
    · cases answered.symm.trans eq
      exact Or.inr (same ▸ rfl)
    · cases refused.symm.trans eq
  range start length f same := by
    obtain ⟨same', either⟩ := f.callRange_spec (f.shelf.range start length)
    refine ⟨same'.trans same, fun vs eq whole => ?_⟩
    rcases either with answered | ⟨-, miscounted⟩
    · have brought := answered.symm.trans eq
      rw [same] at brought
      exact Shelf.range_answers brought
    · obtain ⟨ws, brought, other⟩ := miscounted vs eq
      rw [whole, Shelf.length_range brought] at other
      exact absurd rfl other
  byId id f same := by
    obtain ⟨same', either⟩ := f.call_spec (.ok (f.shelf.byId? id))
    refine ⟨same'.trans same, fun v? eq => ?_⟩
    rcases either with answered | ⟨-, e, refused⟩
    · cases answered.symm.trans eq
      exact Or.inr (Or.inl (same ▸ rfl))
    · cases refused.symm.trans eq
  identify f same p v id item named := distinct.identify_answers item (same ▸ named)

/-- A call that is not struck is answered as the shelf would. -/
theorem reliable (distinct : s.Distinct) (countable : s.size < wordLimit) :
    source.Reliable (s.answers fun _ => False) (fun f => f.shelf = s)
      (fun f => f.struck = true) where
  size f same e failed := by
    obtain ⟨-, answered | ⟨struck, -⟩⟩ := f.call_spec (.ok f.shelf.size)
    · cases answered.symm.trans failed
    · exact struck
  range start length n f same size within := by
    obtain ⟨-, answered | ⟨struck, -⟩⟩ :=
      f.callRange_spec (f.shelf.range start length)
    · rw [Shelf.answers_nothing_size.1 size] at within
      have whole : s.range start length = .ok ((s.items.drop start).take length) := by
        rw [Shelf.range, within]
      have asked : f.shelf.range start length = s.range start length := by rw [same]
      exact Or.inr ⟨_, answered.trans (asked.trans whole), Shelf.length_range whole⟩
    · exact Or.inl struck
  byId id f same e failed := by
    obtain ⟨-, answered | ⟨struck, -⟩⟩ := f.call_spec (.ok (f.shelf.byId? id))
    · cases answered.symm.trans failed
    · exact struck
  size_lt n size := Shelf.answers_nothing_size.1 size ▸ countable
  unique f same p q v w id item item' named named' :=
    distinct p q v w id (Shelf.answers_nothing_item.1 item) (Shelf.answers_nothing_item.1 item')
      (same ▸ named) (same ▸ named')

end Flaky

end ReadThrough
