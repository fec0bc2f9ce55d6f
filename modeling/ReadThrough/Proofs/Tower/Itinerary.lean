import ReadThrough.Network.Delivery

/-!
# The moments of an agenda

Carrying out an agenda goes through moments, each of them an errand and the network in
which it is about to be done.

* `Network.Steps w agenda moments w'`: the agenda leads from `w` through these moments to
  `w'`, where nothing of it is left.  Agendas can be put one behind the other.
* `Network.itinerary` computes the moments, and `Network.course` those of a command;
  `Steps.drain` and `Steps.execute` say that they are right if there are rounds enough.
* `announcedBy` and `toldCaches` pick out of the moments what a node announces, and what
  caches are told and when.
-/

namespace ReadThrough.Network

variable {ι α : Type}

/-- An errand, and the network in which it is about to be done. -/
abbrev Moment (ι α : Type) : Type := Network ι α × Errand ι α

/-- The states of all caches, from the one that was made first on. -/
def caches (w : Network ι α) : List (Cache ι α) :=
  (List.range w.nodes.size).filterMap fun n => (w.layer? n).map (·.cache)

/-- The changes that a node announces, in order. -/
def announcedBy (n : NodeId) (moments : List (Moment ι α)) : List (Change ι) :=
  moments.filterMap fun moment =>
    match moment.2 with
    | .announce m change => if m = n then some change else none
    | _ => none

/-- The caches that are called, in order: which one is told what, and how all of them
are at this moment. -/
def toldCaches (moments : List (Moment ι α)) : List (NodeId × Change ι × List (Cache ι α)) :=
  moments.filterMap fun moment =>
    match moment.2 with
    | .deliver (.cache n) change => some (n, change, moment.1.caches)
    | _ => none

theorem announcedBy_append (n : NodeId) (moments moments' : List (Moment ι α)) :
    announcedBy n (moments ++ moments') = announcedBy n moments ++ announcedBy n moments' :=
  List.filterMap_append

theorem toldCaches_append (moments moments' : List (Moment ι α)) :
    toldCaches (moments ++ moments') = toldCaches moments ++ toldCaches moments' :=
  List.filterMap_append

variable [DecidableEq ι] [ToString ι]

/-- The agenda leads from the first network through these moments to the last one. -/
inductive Steps : Network ι α → List (Errand ι α) → List (Moment ι α) → Network ι α → Prop
  | done {w : Network ι α} : Steps w [] [] w
  | step {w w₁ w' : Network ι α} {errand : Errand ι α} {more agenda : List (Errand ι α)}
    {moments : List (Moment ι α)} : w.advance errand = (none, w₁, more) →
    Steps w₁ (more ++ agenda) moments w' → Steps w (errand :: agenda) ((w, errand) :: moments) w'

variable {w w₁ w' : Network ι α} {errand : Errand ι α} {more agenda agenda' : List (Errand ι α)}
variable {moments moments' : List (Moment ι α)}

theorem Steps.append (first : Steps w agenda moments w₁) (second : Steps w₁ agenda' moments' w') :
    Steps w (agenda ++ agenda') (moments ++ moments') w' := by
  induction first with
  | done => exact second
  | step advanced _ ih =>
    have rest := ih second
    rw [List.append_assoc] at rest
    exact .step advanced rest

/-- One errand, and those that it leaves. -/
theorem Steps.one (advanced : w.advance errand = (none, w₁, more))
    (rest : Steps w₁ more moments w') : Steps w [errand] ((w, errand) :: moments) w' :=
  .step advanced (by rwa [List.append_nil])

/-- The moments that `drain` goes through. -/
def itinerary : Nat → Network ι α → List (Errand ι α) → List (Moment ι α)
  | 0, _, _ => []
  | _ + 1, _, [] => []
  | rounds + 1, w, errand :: errands =>
    (w, errand) ::
      match w.advance errand with
      | (none, w, more) => itinerary rounds w (more ++ errands)
      | (some _, _, _) => []

/-- The moments that `execute` goes through after the first step of the command. -/
def course (w : Network ι α) (c : Command ι α) : List (Moment ι α) :=
  let (_, w', errands) := w.perform c
  itinerary (w.effort c) w' errands

/-- With rounds enough `drain` comes to the end of the agenda. -/
theorem Steps.drain (steps : Steps w agenda moments w') {rounds : Nat}
    (enough : moments.length ≤ rounds) :
    drain rounds w agenda = (none, w') ∧ itinerary rounds w agenda = moments := by
  induction steps generalizing rounds with
  | done => cases rounds <;> exact ⟨rfl, rfl⟩
  | step advanced _ ih =>
    obtain ⟨rounds, rfl⟩ : ∃ r, rounds = r + 1 :=
      ⟨rounds - 1, by rw [List.length_cons] at enough; omega⟩
    obtain ⟨drained, passed⟩ := ih (Nat.le_of_succ_le_succ enough)
    simp only [Network.drain, itinerary, advanced]
    exact ⟨drained, congrArg _ passed⟩

/-- What no step of a clean-up changes is as it was after a clean-up. -/
theorem cleanUp_keeps {β : Type} {f : Network ι α → β}
    (keeps : ∀ w errand, errand.isCleanup = true → f (w.advance errand).2.1 = f w)
    (errands : List (Errand ι α)) : f (w.cleanUp errands) = f w := by
  rw [cleanUp]
  induction errands generalizing w with
  | nil => rfl
  | cons errand errands ih =>
    rw [List.filter_cons]
    split
    · rename_i cleans
      exact ih.trans (keeps w errand cleans)
    · exact ih

/-- A command whose agenda is carried out ends where the agenda does. -/
theorem Steps.execute {c : Command ι α}
    (steps : Steps (w.perform c).2.1 (w.perform c).2.2 moments w')
    (enough : moments.length ≤ w.effort c) :
    w.execute c = ((w.perform c).1, w') ∧ w.course c = moments := by
  obtain ⟨drained, passed⟩ := steps.drain enough
  refine ⟨?_, passed⟩
  rw [Network.execute]
  dsimp only
  rw [drained]

/-- A command that leaves nothing to be done. -/
theorem execute_of_perform {c : Command ι α} {outcome : Outcome ι α}
    (performed : w.perform c = (outcome, w', [])) : w.execute c = (outcome, w') := by
  have steps : Steps (w.perform c).2.1 (w.perform c).2.2 [] w' := by
    rw [performed]
    exact .done
  rw [(steps.execute (Nat.zero_le _)).1, performed]

end ReadThrough.Network
