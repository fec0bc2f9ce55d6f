import ReadThrough.Proofs.Table.Holds
import ReadThrough.Source

/-!
# Right answers

What a source may answer depends on the question it is asked and on what the
reader wants to rely on.  `Answers ι α` says which sizes, which objects for a
position and which objects for an identity count as right; a reader of the source
never needs to know more.

* `Answers.entry` are the entries that only hold right answers.
* `Source.Truthful right inv`: from a state with `inv`, every answer that is no
  fault is right, and `inv` stays.
* `Source.Reliable right inv struck`: an answer is a fault, or of the wrong
  length, only where the state says afterwards that the source was `struck`.
-/

namespace ReadThrough

variable {σ ι α : Type}

structure Answers (ι α : Type) : Type where
  size : Nat → Prop
  /-- The object may be told to stand at this position. -/
  item : Nat → α → Prop
  /-- This may be told of an identity. -/
  named : ι → Option α → Prop

namespace Answers

/-- Everything is right. -/
def any : Answers ι α := ⟨fun _ => True, fun _ _ => True, fun _ _ => True⟩

variable {right : Answers ι α}

/-- The objects may be told to stand one after another from `start` on. -/
def run (right : Answers ι α) (start : Nat) (values : List α) : Prop :=
  ∀ i v, values[i]? = some v → right.item (start + i) v

/-- The entry holds what may be told of both its keys. -/
def entry (right : Answers ι α) (e : Entry ι α) : Prop :=
  right.named e.id (some e.value) ∧ ∀ p, e.position? = some p → right.item p e.value

theorem run_nil {start : Nat} : right.run start [] := by
  intro i v at_i
  cases at_i

theorem run_cons {start : Nat} {v : α} {vs : List α} :
    right.run start (v :: vs) ↔ right.item start v ∧ right.run (start + 1) vs := by
  constructor
  · intro all
    refine ⟨all 0 v rfl, fun i w at_i => ?_⟩
    have item := all (i + 1) w at_i
    rwa [Nat.add_comm i 1, ← Nat.add_assoc] at item
  · intro ⟨first, rest⟩ i w at_i
    cases i with
    | zero =>
      cases at_i
      exact first
    | succ i =>
      have item := rest i w at_i
      rwa [Nat.add_assoc, Nat.add_comm 1 i] at item

theorem run_append {start : Nat} {vs ws : List α} (left : right.run start vs)
    (rest : right.run (start + vs.length) ws) : right.run start (vs ++ ws) := by
  induction vs generalizing start with
  | nil => exact rest
  | cons v vs ih =>
    obtain ⟨first, left⟩ := run_cons.1 left
    rw [List.length_cons, Nat.add_comm vs.length 1, ← Nat.add_assoc] at rest
    exact run_cons.2 ⟨first, ih left rest⟩

theorem entry.vacate {e : Entry ι α} (good : right.entry e) (position? : Option Nat) :
    right.entry (e.vacate position?) := by
  refine ⟨?_, fun p at_p => ?_⟩
  · rw [Entry.vacate_id, Entry.vacate_value]
    exact good.1
  · rw [Entry.vacate_value]
    exact good.2 p (Entry.vacate_position?_eq_some_iff.1 at_p).1

end Answers

namespace Source

/-- The source answers right from any state with `inv`, or with a fault, or brings
another number of objects than it was asked for. -/
structure Truthful (src : Source σ ι α) (right : Answers ι α) (inv : σ → Prop) : Prop where
  size : ∀ s, inv s → inv (src.size s).2 ∧ ∀ n, (src.size s).1 = .ok n → right.size n
  range : ∀ start length s, inv s → inv (src.range start length s).2 ∧
    ∀ vs, (src.range start length s).1 = .ok vs → vs.length = length → right.run start vs
  byId : ∀ id s, inv s → inv (src.byId id s).2 ∧
    ∀ v?, (src.byId id s).1 = .ok v? → right.named id v?
  /-- An object that may stand somewhere may be told of its identity. -/
  identify : ∀ s, inv s → ∀ p v id, right.item p v → src.identify s v = some id →
    right.named id (some v)

/-- Whatever a source answers is right for a reader that relies on nothing. -/
theorem truthful_any (src : Source σ ι α) : src.Truthful .any fun _ => True where
  size _ _ := ⟨trivial, fun _ _ => trivial⟩
  range _ _ _ _ := ⟨trivial, fun _ _ _ _ _ _ => trivial⟩
  byId _ _ _ := ⟨trivial, fun _ _ => trivial⟩
  identify _ _ _ _ _ _ _ := trivial

/-- Where the source is not `struck`, it answers whatever it can be asked for by its
size, and objects that stand at different positions have different identities. -/
structure Reliable (src : Source σ ι α) (right : Answers ι α) (inv struck : σ → Prop) :
    Prop where
  size : ∀ s, inv s → ∀ e, (src.size s).1 = .error e → struck (src.size s).2
  range : ∀ start length n s, inv s → right.size n → guardRange start length n = .ok () →
    struck (src.range start length s).2 ∨
      ∃ vs, (src.range start length s).1 = .ok vs ∧ vs.length = length
  byId : ∀ id s, inv s → ∀ e, (src.byId id s).1 = .error e → struck (src.byId id s).2
  size_lt : ∀ n, right.size n → n < wordLimit
  unique : ∀ s, inv s → ∀ p q v w id, right.item p v → right.item q w →
    src.identify s v = some id → src.identify s w = some id → p = q

end Source

end ReadThrough
