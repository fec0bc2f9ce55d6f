import ReadThrough.Proofs.Cache.Coherence
import ReadThrough.Proofs.Network.Errands

/-!
# Networks that have come to rest

Listeners may edit shelves, read and write through caches, empty caches, attach them
elsewhere, and come and go while they are called, so caches are read before they have
heard of a change, and hear of changes in another order than they happened.  When
nothing is left to be told, every cache is coherent with the shelf below it all the
same.

* `Network.Reached w agenda`: commands and errands lead to `w`, with `agenda` to do.
* `Network.coherent_of_quiet`: caches are coherent when nothing is being told.
* `Network.carryOut?` carries a command out to the end of its agenda, as `execute` does,
  and checks the shelves at every step.
-/

namespace ReadThrough

variable {ι α : Type}

/-- Whether the errand is part of telling a change. -/
def Errand.isTelling : Errand ι α → Bool
  | announce _ _ | deliver _ _ => true
  | _ => false

namespace Network

variable {w w' : Network ι α} {n m : NodeId} {l : Layer ι α} {o : Origin ι α}
variable {agenda : List (Errand ι α)}

theorem not_pending_of_quiet (quiet : ∀ errand ∈ agenda, errand.isTelling = false)
    {change : Change ι} : ¬ w.Pending agenda change n := by
  intro pending
  induction pending with
  | deliver _ mem => cases quiet _ mem
  | announce _ mem => cases quiet _ mem
  | pass _ _ ih => exact ih

theorem lawful_empty : (empty : Network ι α).Lawful := by
  intro n o here
  cases here

variable [DecidableEq ι]

/-- A cache that holds what is right once all changes have been heard of. -/
theorem coherent_of_stocked {c : Cache ι α} {s : Shelf ι α}
    (stocked : c.Stocked (s.answers fun _ => False)) : c.Coherent s where
  items e mem p at_e := Shelf.answers_nothing_item.1 ((stocked.entries e mem).2 p at_e)
  named e mem := (Shelf.answers_nothing_named.1 (stocked.entries e mem).1).symm
  size n known := Shelf.answers_nothing_size.1 (stocked.size n known)

variable [ToString ι]

/-- What commands and errands lead to from the empty network, and what is still to be
done.  A command may be given at any moment, as a listener does that is called.  The
shelves are lawful at every moment, and no listener fails. -/
inductive Reached : Network ι α → List (Errand ι α) → Prop
  | empty : Reached empty []
  | perform {w : Network ι α} {agenda : List (Errand ι α)} (c : Command ι α) :
    Reached w agenda → (w.perform c).2.1.Lawful →
    Reached (w.perform c).2.1 ((w.perform c).2.2 ++ agenda)
  | advance {w : Network ι α} {errand : Errand ι α} {agenda : List (Errand ι α)} :
    Reached w (errand :: agenda) → (w.advance errand).1 = none →
    (w.advance errand).2.1.Lawful →
    Reached (w.advance errand).2.1 ((w.advance errand).2.2 ++ agenda)

theorem Reached.lawful (reached : Reached w agenda) : w.Lawful := by
  cases reached with
  | empty => exact lawful_empty
  | perform c _ lawful => exact lawful
  | advance _ _ lawful => exact lawful

theorem Reached.inStep (reached : Reached w agenda) : w.InStep agenda := by
  induction reached with
  | empty => exact inStep_empty
  | perform c before lawful ih => exact kept_perform ih before.lawful c lawful
  | advance before _ lawful ih => exact ih.advance before.lawful lawful

/-- While no change is being told, a cache that is held is coherent with the shelf that
it rests on, whatever else is still to be done. -/
theorem coherent_of_quiet (reached : Reached w agenda)
    (quiet : ∀ errand ∈ agenda, errand.isTelling = false) (here : w.layer? n = some l)
    (stays : l.retired = false) (rests : w.Rests n m o) : l.cache.Coherent o.shelf := by
  have heard : (o.shelf.answers fun ch => w.Pending agenda ch n).Within
      (o.shelf.answers fun _ => False) :=
    Shelf.answers_mono fun _ => not_pending_of_quiet quiet
  have stocked := reached.inStep.stocked n l here stays
  refine coherent_of_stocked (stocked.mono ⟨fun e good => ?_, fun k size => ?_⟩)
  · exact heard.entry e (entry_answers_iff.1 good m o rests)
  · exact heard.size k (size m o rests)

/-! ## Runs that can be computed -/

omit [ToString ι] in
/-- Shelves are lawful, as far as a test can tell. -/
def isPlain (w : Network ι α) : Bool :=
  w.nodes.all fun node =>
    match node.body with
    | .origin o => decide o.shelf.Distinct && o.trouble.isPlain
    | _ => true

omit [ToString ι] in
theorem lawful_of_isPlain (plain : w.isPlain = true) : w.Lawful := by
  intro n o here
  rw [origin?_eq] at here
  obtain ⟨⟨body, r⟩, at_n, is_o⟩ := Option.bind_eq_some_iff.1 here
  obtain ⟨lt, at_n⟩ := Array.getElem?_eq_some_iff.1 at_n
  have each := Array.all_eq_true.1 plain n lt
  rw [at_n] at each
  cases body with
  | origin o' =>
    cases is_o
    obtain ⟨distinct, plain⟩ := Bool.and_eq_true_iff.1 each
    exact ⟨of_decide_eq_true distinct, Trouble.honest_of_isPlain plain⟩
  | layer l => cases is_o
  | relay => cases is_o

/-- The network after an agenda that takes at most `rounds` steps, if no listener fails
in it and the shelves are plainly lawful. -/
def finish? : Nat → Network ι α → List (Errand ι α) → Option (Network ι α)
  | _, w, [] => some w
  | 0, _, _ :: _ => none
  | rounds + 1, w, errand :: agenda =>
    match w.advance errand with
    | (none, w, more) => if w.isPlain then finish? rounds w (more ++ agenda) else none
    | (some _, _, _) => none

/-- The network after a command and everything that follows from it, in the same case. -/
def carryOut? (w : Network ι α) (c : Command ι α) : Option (Network ι α) :=
  let (_, w', errands) := w.perform c
  if w'.isPlain then finish? (w.effort c) w' errands else none

theorem drain_of_finish {rounds : Nat} (eq : finish? rounds w agenda = some w') :
    drain rounds w agenda = (none, w') := by
  induction rounds generalizing w agenda with
  | zero =>
    cases agenda with
    | nil =>
      cases eq
      rfl
    | cons errand agenda => cases eq
  | succ rounds ih =>
    cases agenda with
    | nil =>
      cases eq
      rfl
    | cons errand agenda =>
      rw [finish?] at eq
      split at eq
      · rename_i w₁ more advanced
        rw [drain, advanced]
        split at eq
        · exact ih eq
        · cases eq
      · cases eq

theorem execute_of_carryOut {c : Command ι α} (eq : w.carryOut? c = some w') :
    (w.execute c).2 = w' := by
  rw [carryOut?] at eq
  dsimp only at eq
  split at eq
  · rw [execute]
    dsimp only
    rw [drain_of_finish eq]
  · cases eq

theorem executeAll_of_carryOut {cs : List (Command ι α)} (eq : cs.foldlM carryOut? w = some w') :
    cs.foldl (fun w c => (w.execute c).2) w = w' := by
  induction cs generalizing w with
  | nil =>
    cases eq
    rfl
  | cons c cs ih =>
    rw [List.foldlM_cons] at eq
    obtain ⟨w₁, carried, eq⟩ := Option.bind_eq_some_iff.1 eq
    rw [List.foldl_cons, execute_of_carryOut carried]
    exact ih eq

theorem Reached.finish {rounds : Nat} (reached : Reached w agenda)
    (eq : finish? rounds w agenda = some w') : Reached w' [] := by
  induction rounds generalizing w agenda with
  | zero =>
    cases agenda with
    | nil =>
      cases eq
      exact reached
    | cons errand agenda => cases eq
  | succ rounds ih =>
    cases agenda with
    | nil =>
      cases eq
      exact reached
    | cons errand agenda =>
      rw [finish?] at eq
      split at eq
      · rename_i w₁ more advanced
        split at eq
        · rename_i plain
          have next := reached.advance (by rw [advanced])
            (by rw [advanced]; exact lawful_of_isPlain plain)
          rw [advanced] at next
          exact ih next eq
        · cases eq
      · cases eq

theorem Reached.carryOut {c : Command ι α} (reached : Reached w [])
    (eq : w.carryOut? c = some w') : Reached w' [] := by
  rw [carryOut?] at eq
  dsimp only at eq
  split at eq
  · rename_i plain
    have performed := reached.perform c (lawful_of_isPlain plain)
    rw [List.append_nil] at performed
    exact performed.finish eq
  · cases eq

theorem Reached.carryOutAll {cs : List (Command ι α)} (reached : Reached w [])
    (eq : cs.foldlM carryOut? w = some w') : Reached w' [] := by
  induction cs generalizing w with
  | nil =>
    cases eq
    exact reached
  | cons c cs ih =>
    rw [List.foldlM_cons] at eq
    obtain ⟨w₁, carried, eq⟩ := Option.bind_eq_some_iff.1 eq
    exact ih (reached.carryOut carried) eq

/-- A listener of the shelf that edits it and reads through the cache before the cache
hears of anything, and one of the cache that reads again at every call. -/
def crossed : List (Command Nat Nat) := [
  .addShelf "shelf" [7, 8] some,
  .addCache "cache" "shelf" 2 1,
  .addScript "early" [.ask "shelf" (.push 9), .ask "cache" (.get 0)] 1 false,
  .addScript "again" [.ask "cache" (.range 0 2)] 9 false,
  .ask "shelf" (.subscribe "early"),
  .ask "cache" (.subscribe "again"),
  .ask "cache" (.get 0),
  .ask "shelf" (.removeAt 0)]

theorem coherent_after_crossed : ∃ w l o, crossed.foldlM carryOut? empty = some w ∧
    crossed.foldl (fun w c => (w.execute c).2) empty = w ∧ w.layer? 1 = some l ∧
    w.origin? 0 = some o ∧ l.cache.table.size = 2 ∧ l.cache.Coherent o.shelf := by
  have checked : ((crossed.foldlM carryOut? empty).any fun w => (w.layer? 1).any fun l =>
      (w.origin? 0).any fun _ => l.below == 0 && !l.retired && l.cache.table.size == 2) = true := by
    decide +kernel
  simp only [Option.any_eq_true, Bool.and_eq_true, beq_iff_eq, Bool.not_eq_true'] at checked
  obtain ⟨w, ran, l, here, o, bottom, ⟨below, stays⟩, full⟩ := checked
  have rests : w.Rests 1 0 o := .above (below ▸ below?_eq here) (.here bottom)
  have reached : Reached w [] := Reached.empty.carryOutAll ran
  refine ⟨w, l, o, ran, executeAll_of_carryOut ran, here, bottom, full,
    coherent_of_quiet reached ?_ here stays rests⟩
  exact fun _ mem => absurd mem List.not_mem_nil

end Network

end ReadThrough
