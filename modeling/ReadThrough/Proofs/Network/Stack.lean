import ReadThrough.Network.Delivery
import ReadThrough.Proofs.Network.Nodes
import ReadThrough.Proofs.Shelf.Announced

/-!
# Stacks of caches

A cache rests on the shelf at the bottom of the stack below it.  What it may hold
depends on this shelf and on the changes that are still on their way to it: those to
be delivered to it, to be announced by the node below, or on their way to that.

* `Network.bottom?` finds the shelf at the bottom of a stack.
* `Network.Rests w n m o`: node `n` stands over the shelf `o`, which is node `m`.
* `Network.Pending w agenda change n`: the change will reach the cache `n` if the
  agenda is carried out.
* `Network.answers w agenda n`: what is right at node `n` in between.
-/

namespace ReadThrough.Network

variable {ι α : Type} {w w' : Network ι α} {n m b k : NodeId} {l : Layer ι α} {o o' : Origin ι α}

/-- The nodes from `n` down to a shelf, and that shelf. -/
def bottom? (w : Network ι α) : Nat → NodeId → Option (List NodeId × NodeId × Origin ι α)
  | 0, _ => none
  | depth + 1, n =>
    match w.node? n with
    | some ⟨.origin o, _⟩ => some ([n], n, o)
    | some ⟨.layer l, _⟩ =>
      (bottom? w depth l.below).map fun (path, m, o) => (n :: path, m, o)
    | _ => none

/-- The node that a cache reads from. -/
def below? (w : Network ι α) (n : NodeId) : Option NodeId := (w.layer? n).map (·.below)

inductive Rests (w : Network ι α) : NodeId → NodeId → Origin ι α → Prop
  | here {n : NodeId} {o : Origin ι α} : w.origin? n = some o → Rests w n n o
  | above {n b m : NodeId} {o : Origin ι α} : w.below? n = some b → Rests w b m o → Rests w n m o

inductive Pending (w : Network ι α) (agenda : List (Errand ι α)) (change : Change ι) :
    NodeId → Prop
  | deliver {n b : NodeId} : w.below? n = some b → .deliver (.cache n) change ∈ agenda →
    Pending w agenda change n
  | announce {n b : NodeId} : w.below? n = some b → .announce b change ∈ agenda →
    Pending w agenda change n
  | pass {n b : NodeId} : w.below? n = some b → Pending w agenda change b →
    Pending w agenda change n

theorem below?_eq (here : w.layer? n = some l) : w.below? n = some l.below := by
  rw [below?, here]
  rfl

theorem Rests.origin? (rests : w.Rests n m o) : w.origin? m = some o := by
  induction rests with
  | here at_n => exact at_n
  | above _ _ ih => exact ih

/-- A cache rests on what the node below it rests on. -/
theorem Rests.inv (rests : w.Rests n m o) (here : w.layer? n = some l) : w.Rests l.below m o := by
  cases rests with
  | here at_n =>
    rw [origin?_eq_none here] at at_n
    cases at_n
  | above below rests =>
    cases (below?_eq here).symm.trans below
    exact rests

theorem Rests.congr (below : ∀ k, w'.below? k = w.below? k)
    (origin : ∀ k, w'.origin? k = w.origin? k) (rests : w.Rests n m o) : w'.Rests n m o := by
  induction rests with
  | here at_n => exact .here ((origin _).trans at_n)
  | above under _ ih => exact .above ((below _).trans under) ih

theorem rests_of_bottom? {depth : Nat} {path : List NodeId}
    (found : w.bottom? depth n = some (path, m, o)) : w.Rests n m o := by
  induction depth generalizing n path with
  | zero => cases found
  | succ depth ih =>
    rw [bottom?] at found
    split at found
    · rename_i o r at_n
      cases found
      refine .here ?_
      rw [origin?_eq, at_n]
      rfl
    · rename_i l r at_n
      obtain ⟨⟨path', m', o'⟩, found', eq⟩ := Option.map_eq_some_iff.1 found
      cases eq
      refine .above (below?_eq ?_) (ih found')
      rw [layer?_eq, at_n]
      rfl
    · cases found

/-! ## Changes on their way -/

theorem Pending.mono {agenda agenda' : List (Errand ι α)} {change : Change ι}
    (below : ∀ k b, w.below? k = some b → w'.below? k = some b)
    (more : ∀ errand ∈ agenda, errand ∈ agenda') (pending : w.Pending agenda change n) :
    w'.Pending agenda' change n := by
  induction pending with
  | deliver under mem => exact .deliver (below _ _ under) (more _ mem)
  | announce under mem => exact .announce (below _ _ under) (more _ mem)
  | pass under _ ih => exact .pass (below _ _ under) ih

/-- A change that the bottom announces is on its way to every cache above. -/
theorem Rests.pending {agenda : List (Errand ι α)} {change : Change ι}
    (rests : w.Rests n m o) (above : n ≠ m) (told : .announce m change ∈ agenda) :
    w.Pending agenda change n := by
  induction rests with
  | here => exact absurd rfl above
  | above under rests ih =>
    rename_i n b m o
    by_cases same : b = m
    · exact .announce (same ▸ under) told
    · exact .pass under (ih same told)

variable [DecidableEq ι]

/-- What is right at a node: what may be told of the shelf it rests on while the
changes on their way to it are to be heard of.  A node that rests on no shelf promises
nothing. -/
def answers (w : Network ι α) (agenda : List (Errand ι α)) (n : NodeId) : Answers ι α where
  size k := ∀ m o, w.Rests n m o → (o.shelf.answers fun ch => w.Pending agenda ch n).size k
  item p v := ∀ m o, w.Rests n m o → (o.shelf.answers fun ch => w.Pending agenda ch n).item p v
  named id v? :=
    ∀ m o, w.Rests n m o → (o.shelf.answers fun ch => w.Pending agenda ch n).named id v?

theorem entry_answers_iff {agenda : List (Errand ι α)} {e : Entry ι α} :
    (w.answers agenda n).entry e ↔ ∀ m o, w.Rests n m o →
      (o.shelf.answers fun ch => w.Pending agenda ch n).entry e := by
  constructor
  · intro good m o rests
    exact ⟨good.1 m o rests, fun p at_p => good.2 p at_p m o rests⟩
  · intro good
    exact ⟨fun m o rests => (good m o rests).1, fun p at_p m o rests => (good m o rests).2 p at_p⟩

/-- To compare two moments it is enough to compare what may be told of the shelves,
unless everything is excused. -/
theorem answers_within {agenda agenda' : List (Errand ι α)}
    (shelf : ∀ m o', w'.Rests n m o' → (∃ o, w.Rests n m o ∧
      (o.shelf.answers fun ch => w.Pending agenda ch n).Within
        (o'.shelf.answers fun ch => w'.Pending agenda' ch n)) ∨
      Change.Shifting fun ch => w'.Pending agenda' ch n) :
    (w.answers agenda n).Within (w'.answers agenda' n) := by
  refine ⟨fun e good => entry_answers_iff.2 fun m o' rests' => ?_, fun k size m o' rests' => ?_⟩
  · rcases shelf m o' rests' with ⟨o, rests, within⟩ | shifting
    · exact within.entry e (entry_answers_iff.1 good m o rests)
    · exact (Shelf.answers_of_shifting shifting).entry e good
  · rcases shelf m o' rests' with ⟨o, rests, within⟩ | shifting
    · exact within.size k (size m o rests)
    · exact Or.inl shifting

end ReadThrough.Network
